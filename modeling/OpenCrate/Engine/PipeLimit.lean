import OpenCrate.Engine.WireRoundTrip

/-!
# What fits through the pipe

The length of a packed header is a sum over the request: no random choice and no secret enters it
(`length_header_of_assemble`). The message that carries the header back to the host has nine bytes of
its own and the mutable region behind the header, and the largest message is as long as the longest
header that the format accepts. So the headers of the last `doneOverhead` bytes below that limit are
packed and then lost (`done_fits_iff`).
-/

namespace OpenCrate.Engine

open Crypto Format
open Except (refuseIf okOr)

/-! ### The length of a slot -/

/-- The length of a slot with a sealed secret. -/
def sealedSlotLength (kem : KemAlg) (secret : ℕ) : ℕ :=
  7 * fieldPrefixLen + 2 + 1 + (expectedEncLen containerVersion kem).getD 0 + (secret + Crypto.tagLen) + 32 +
    (expectedKeyFprLen containerVersion kem).getD 0 + Crypto.nonceLen

/-- The length of a slot with the commitment of a claim code. -/
def claimSlotLength : ℕ := 7 * fieldPrefixLen + 2 + 1 + 32 + 0 + 32 + Crypto.nonceLen + 32

/-- The mechanism of the author slot. -/
def RecipientPlan.authorKem (plan : RecipientPlan) (keys : PublicKeys) : KemAlg :=
  if plan.isHardwareHybrid then .mlKem768P256
  else if plan.isHybrid then .xWing
  else if keys.deviceTpm.isSome then .p256HkdfSha256
  else .x25519HkdfSha256

/-- The lengths of the recipient slot, if there is one. -/
def RecipientPlan.slotLengths : RecipientPlan → List ℕ
  | .none => []
  | .identity _ => [sealedSlotLength .x25519HkdfSha256 secretLen]
  | .hybrid _ => [sealedSlotLength .xWing secretLen]
  | .hardwareHybrid _ => [sealedSlotLength .mlKem768P256 secretLen]
  | .claim _ => [claimSlotLength]

/-- The lengths of all slots: the server's, the recipient's, the author's. -/
def slotLengths (plan : RecipientPlan) (keys : PublicKeys) : List ℕ :=
  sealedSlotLength .x25519HkdfSha256 secretLen :: plan.slotLengths ++
    [sealedSlotLength (plan.authorKem keys) (2 * secretLen)]

section Slots

variable {γ : Type} {sha : Sha2} {c : XChaCha} {k : Kems} {rng : Rng γ} {g g' : γ}

/-- A sealed secret is longer by the tag. -/
theorem length_ct_of_sealCore (hc : c.Lawful) {shared : Digest}
    {ephPublic recipientPublic info aad plaintext : List UInt8} {nonce : Nonce} {blob : Seal.SealedBlob}
    (h : Seal.sealCore sha c shared ephPublic recipientPublic info aad plaintext nonce = .ok blob) :
    blob.ct.length = plaintext.length + Crypto.tagLen := by
  obtain ⟨key, -, h⟩ := Except.bind_eq_ok_iff.mp h
  obtain ⟨ct, hct, h⟩ := Except.bind_eq_ok_iff.mp h
  obtain rfl := Except.ok.inj h
  exact hc.length_encrypt (Except.okOr_eq_ok_iff.mp hct)

/-- What a mechanism seals is longer by the tag. -/
def AddsTag (sealBlob : (info aad plaintext : List UInt8) → γ →
    Except CryptoError (Seal.SealedBlob × γ)) : Prop :=
  ∀ {info aad plaintext g blob g'}, sealBlob info aad plaintext g = .ok (blob, g') →
    blob.ct.length = plaintext.length + Crypto.tagLen

/-- A mechanism adds a tag to what it seals, and nothing else. -/
theorem addsTag_seal (hc : c.Lawful) (recipientPublic : Digest) :
    AddsTag fun info aad plaintext ↦ Seal.seal_ sha c k info aad plaintext rng recipientPublic := by
  intro info aad plaintext g blob g' h
  simp only [Seal.seal_, Except.bind_eq_ok_iff, Prod.exists, Except.ok.injEq, Prod.mk.injEq] at h
  obtain ⟨_, -, _, _, -, _, hblob, rfl, -⟩ := h
  exact length_ct_of_sealCore hc hblob

theorem addsTag_sealP256 (hc : c.Lawful) (recipientPublic : List UInt8) :
    AddsTag fun info aad plaintext ↦ Seal.sealP256 sha c k info aad plaintext rng recipientPublic := by
  intro info aad plaintext g blob g' h
  simp only [Seal.sealP256, Except.bind_eq_ok_iff, Prod.exists, Except.ok.injEq, Prod.mk.injEq] at h
  obtain ⟨_, -, _, _, -, _, -, _, hblob, rfl, -⟩ := h
  exact length_ct_of_sealCore hc hblob

theorem addsTag_sealXwing (hc : c.Lawful) (recipientPublic : List UInt8) :
    AddsTag fun info aad plaintext ↦ Seal.sealXwing sha c k info aad plaintext rng recipientPublic := by
  intro info aad plaintext g blob g' h
  simp only [Seal.sealXwing, Except.bind_eq_ok_iff, Prod.exists, Except.ok.injEq,
    Prod.mk.injEq] at h
  obtain ⟨_, -, _, _, -, _, -, _, _, _, -, _, _, -, _, hblob, rfl, -⟩ := h
  exact length_ct_of_sealCore hc hblob

theorem addsTag_sealMlkemP256 (hc : c.Lawful) (recipientPublic : List UInt8) :
    AddsTag fun info aad plaintext ↦
      Seal.sealMlkemP256 sha c k info aad plaintext rng recipientPublic := by
  intro info aad plaintext g blob g' h
  simp only [Seal.sealMlkemP256, Except.bind_eq_ok_iff, Prod.exists, Except.ok.injEq,
    Prod.mk.injEq] at h
  obtain ⟨_, _, _, -, _, _, -, _, hblob, rfl, -⟩ := h
  exact length_ct_of_sealCore hc hblob

/-- A slot is written in the length of its mechanism. -/
theorem length_of_sealSlotBy {kem : KemAlg}
    {sealBlob : (info aad plaintext : List UInt8) → γ → Except CryptoError (Seal.SealedBlob × γ)}
    {kind : SlotKind} {publicKey plaintext body : List UInt8} {purpose : Label}
    {fileId : List.Vector UInt8 16} {policyHash commitment : Digest} {slot : KeySlot}
    (htag : AddsTag sealBlob)
    (h : sealSlotBy kem sealBlob kind publicKey purpose fileId policyHash plaintext commitment g =
      .ok (slot, g'))
    (hbody : encodeSlot containerVersion slot = .ok body) :
    body.length = sealedSlotLength kem plaintext.length := by
  simp only [sealSlotBy, Except.bind_eq_ok_iff, Except.mapError_eq_ok_iff, Prod.exists,
    Except.ok.injEq, Prod.mk.injEq] at h
  obtain ⟨blob, _, hblob, rfl, -⟩ := h
  obtain ⟨hfits, henc⟩ := encodeKnownSlot_eq_ok_iff.mp hbody
  have hencLen := hfits.encLen
  have hfprLen := hfits.fprLen publicKey rfl
  have hnonce : (@List.Vector.toList UInt8 24 blob.nonce).length = Crypto.nonceLen :=
    blob.nonce.toList_length
  rw [henc.length_eq, sealedSlotLength, hencLen, hfprLen]
  simp [KnownSlot.contents, htag hblob, hnonce, fieldPrefixLen]
  omega

/-- A slot for a claim code has a fixed length. -/
theorem length_claimSlot {claimCommit commitment : Digest} {body : List UInt8}
    (hbody : encodeSlot containerVersion (claimSlot claimCommit commitment) = .ok body) :
    body.length = claimSlotLength := by
  obtain ⟨-, henc⟩ := encodeKnownSlot_eq_ok_iff.mp hbody
  rw [henc.length_eq]
  simp [KnownSlot.contents, claimSlotLength, fieldPrefixLen, Crypto.nonceLen]

variable {s : Session} {keys : PublicKeys} {policyHash commitment : Digest}

/-- The lengths of the recipient slot are those of the plan. -/
theorem lengths_of_recipientSlots (hc : c.Lawful) {slots : List KeySlot} {bodies : List (List UInt8)}
    (h : s.recipientSlots sha c k rng policyHash commitment g = .ok (slots, g'))
    (hbodies : List.Forall₂ (fun slot body ↦ encodeSlot containerVersion slot = .ok body) slots
      bodies) :
    bodies.map List.length = s.plan.slotLengths := by
  have hshare : s.secretB.expose.toList.length = secretLen := s.secretB.expose.toList_length
  -- a sealed recipient has one slot
  have hone : ∀ {kem : KemAlg} {publicKey : List UInt8} {g₁ g₂ : γ} {slot : KeySlot}
      {sealBlob : (info aad plaintext : List UInt8) → γ → Except CryptoError (Seal.SealedBlob × γ)},
      AddsTag sealBlob →
      sealSlotBy kem sealBlob .recipientIdentity publicKey .slotRecipient s.fileId policyHash
        s.secretB.expose.toList commitment g₁ = .ok (slot, g₂) → slots = [slot] →
      bodies.map List.length = [sealedSlotLength kem secretLen] := by
    rintro kem publicKey g₁ g₂ slot sealBlob htag hslot rfl
    obtain ⟨body, _, hbody, hnil, rfl⟩ := List.forall₂_cons_left_iff.mp hbodies
    obtain rfl := List.forall₂_nil_left_iff.mp hnil
    rw [List.map_singleton, length_of_sealSlotBy htag hslot hbody, hshare]
  unfold Session.recipientSlots at h
  split at h
  case h_1 hplan =>
    obtain ⟨rfl, -⟩ := Prod.mk.inj (Except.ok.inj h)
    obtain rfl := List.forall₂_nil_left_iff.mp hbodies
    rw [hplan]
    rfl
  case h_2 publicKey hplan =>
    obtain ⟨⟨slot, _⟩, hslot, hslots⟩ := Except.bind_eq_ok_iff.mp h
    obtain ⟨hslots, -⟩ := Prod.mk.inj (Except.ok.inj hslots)
    rw [hone (addsTag_seal hc publicKey) hslot hslots.symm, hplan]
    rfl
  case h_3 publicKey hplan =>
    obtain ⟨⟨slot, _⟩, hslot, hslots⟩ := Except.bind_eq_ok_iff.mp h
    obtain ⟨hslots, -⟩ := Prod.mk.inj (Except.ok.inj hslots)
    rw [hone (addsTag_sealMlkemP256 hc publicKey.toList) hslot hslots.symm, hplan]
    rfl
  case h_4 publicKey hplan =>
    obtain ⟨⟨slot, _⟩, hslot, hslots⟩ := Except.bind_eq_ok_iff.mp h
    obtain ⟨hslots, -⟩ := Prod.mk.inj (Except.ok.inj hslots)
    rw [hone (addsTag_sealXwing hc publicKey.toList) hslot hslots.symm, hplan]
    rfl
  case h_5 claimCommit hplan =>
    obtain ⟨rfl, -⟩ := Prod.mk.inj (Except.ok.inj h)
    obtain ⟨body, _, hbody, hnil, rfl⟩ := List.forall₂_cons_left_iff.mp hbodies
    obtain rfl := List.forall₂_nil_left_iff.mp hnil
    rw [List.map_singleton, length_claimSlot hbody, hplan]
    rfl

/-- The author slot has the length of its mechanism. -/
theorem length_of_authorSlot (hc : c.Lawful) {slot : KeySlot} {body : List UInt8}
    (h : s.authorSlot sha c k rng keys policyHash commitment g = .ok (slot, g'))
    (hbody : encodeSlot containerVersion slot = .ok body) :
    body.length = sealedSlotLength (s.plan.authorKem keys) (2 * secretLen) := by
  have hshares : (bothShares s.secretA s.secretB).length = 2 * secretLen := by
    rw [bothShares, List.length_append, List.Vector.toList_length, List.Vector.toList_length,
      Nat.two_mul]
    rfl
  rw [← hshares]
  -- hardware and hybrid plans insist on a key of their own, and the others fall back
  unfold Session.authorSlot at h
  split at h
  case h_1 devicePublic hhardware hkey =>
    rw [length_of_sealSlotBy (addsTag_sealMlkemP256 hc _) h hbody, RecipientPlan.authorKem,
      if_pos hhardware]
  case h_2 => cases h
  case h_3 hhardware =>
    have hsoft : ¬s.plan.isHardwareHybrid = true := by rw [hhardware]; exact Bool.false_ne_true
    rw [RecipientPlan.authorKem, if_neg hsoft]
    split at h
    case h_1 hybridPublic _ hhybrid hkey =>
      rw [length_of_sealSlotBy (addsTag_sealXwing hc _) h hbody, if_pos hhybrid]
    case h_2 => cases h
    case h_3 tpmPublic hhybrid hkey =>
      have hclassical : ¬s.plan.isHybrid = true := by rw [hhybrid]; exact Bool.false_ne_true
      rw [length_of_sealSlotBy (addsTag_sealP256 hc _) h hbody, if_neg hclassical, hkey]
      rfl
    case h_4 hhybrid hkey =>
      have hclassical : ¬s.plan.isHybrid = true := by rw [hhybrid]; exact Bool.false_ne_true
      rw [length_of_sealSlotBy (addsTag_seal hc _) h hbody, if_neg hclassical, hkey]
      rfl

end Slots

/-! ### The length of a header -/

/-- The length of the encrypted metadata: its nonce, its two fields and its tag. -/
def metaLength (originalName : String) : ℕ :=
  Crypto.nonceLen + (2 * fieldPrefixLen + (utf8 originalName).length + 8) + Crypto.tagLen

/-- The length of the encoded policy. -/
def policyLength (policy : Policy) : ℕ :=
  ((PolicyCodec.encode containerVersion policy).toOption.getD []).length

/-- The length of the license server: its addresses and its two keys. -/
def authorityLength (urls : List String) : ℕ :=
  3 * fieldPrefixLen + encodedLength (numbered 0 (urls.map utf8)) + 32 + 32

/-- The length of the field of the coauthors, if there are any. -/
def coauthorsLength : Option Coauthors → ℕ
  | none => 0
  | some coauthors => fieldPrefixLen + encodedLength coauthors.contents

/-- The length of the header of a request, apart from the organisation. -/
def headerOverhead (plan : RecipientPlan) (request : PackRequest) (keys : PublicKeys) : ℕ :=
  15 * fieldPrefixLen + (2 + 2 + 16 + encodedLength suite.contents + 32 + 32 + 4 + 32) +
    policyLength request.policy + ((slotLengths plan keys).map (fieldPrefixLen + ·)).sum +
    authorityLength request.authorityUrls + metaLength request.originalName + 1 + Format.wrappedCekLen +
    coauthorsLength request.coauthors

/-- The length of the header of a request. -/
def headerLength (plan : RecipientPlan) (request : PackRequest) (keys : PublicKeys) : ℕ :=
  headerOverhead plan request keys + request.orgId.length

/-- The length of numbered records is the sum of their lengths. -/
theorem encodedLength_numbered (n : ℕ) (values : List (List UInt8)) :
    encodedLength (numbered n values) = ((values.map List.length).map (fieldPrefixLen + ·)).sum := by
  induction values generalizing n with
  | nil => rfl
  | cons value values ih =>
    rw [numbered, encodedLength_cons, ih, List.map_cons, List.map_cons, List.sum_cons]

section Headers

variable {γ : Type} {sha : Sha2} {c : XChaCha} {k : Kems} {rng : Rng γ} {g g' : γ} {s : Session}
  {request : PackRequest} {keys : PublicKeys} {sealed : SealedInfo} {out : Assembled}

/-- The private metadata are as long as the name in them, and a constant. -/
theorem length_of_sealPrivateMeta (hc : c.Lawful) {totalLen : UInt64} {privateMeta : List UInt8}
    (h : sealPrivateMeta sha c rng s.cek s.headerSalt s.fileId request totalLen g =
      .ok (privateMeta, g')) :
    privateMeta.length = metaLength request.originalName := by
  simp only [sealPrivateMeta, sealMetadataHedged, sealWith, Except.bind_eq_ok_iff,
    Except.mapError_eq_ok_iff, Except.okOr_eq_ok_iff, Prod.exists, Except.ok.injEq,
    Prod.mk.injEq] at h
  obtain ⟨w₁, hw₁, w₂, hw₂, _, _, ⟨nonce, -, ct, hct, rfl, rfl⟩, rfl, -⟩ := h
  have hfields : Encodes w₂.finish [(MetaTag.name, utf8 request.originalName),
      (MetaTag.size, toLeBytes totalLen)] := by
    rw [← TlvWriter.writeAll_eq_ok_iff, TlvWriter.writeAll, TlvWriter.putMany_cons, hw₁,
      Except.ok_bind, TlvWriter.putMany_cons, hw₂]
    rfl
  rw [List.length_append, nonce.toList_length, hc.length_encrypt hct, hfields.length_eq,
    encodedLength_cons, encodedLength_cons, encodedLength_nil, length_toLeBytes,
    LeInt.width_uint64, metaLength]
  omega

/-- The roster of coauthors has the length of its keys. -/
theorem length_coauthors {header : Header} {bytes : Option (List UInt8)}
    (hversion : header.containerVersion = containerVersion)
    (h : header.coauthorsBytes = .ok bytes) :
    encodedLength (optField 0x8001 bytes) = coauthorsLength header.coauthors := by
  rw [Header.coauthorsBytes, hversion, if_pos (by decide)] at h
  rcases hco : header.coauthors with - | coauthors
  · rw [hco] at h
    obtain rfl := Except.ok.inj h
    rfl
  · rw [hco] at h
    obtain ⟨bytes, hbytes, rfl⟩ := Except.map_eq_ok_iff.mp h
    obtain ⟨-, henc⟩ := encodeCoauthors_eq_ok_iff.mp hbytes
    rw [optField_some, encodedLength_cons, encodedLength_nil, Nat.add_zero, henc.length_eq,
      coauthorsLength]

/-- A header without the optional fields of an edition is as long as its parts. -/
theorem length_encode {header : Header} {bytes : List UInt8} {lengths : List ℕ}
    (h : header.encode = .ok bytes) (hversion : header.containerVersion = containerVersion)
    (hsuite : header.suite = suite)
    (hprev : header.prevHeaderHash = none) (hfooter : header.footerOffset = none)
    (hslots : ∀ bodies, List.Forall₂ (fun slot body ↦ encodeSlot containerVersion slot = .ok body)
      header.keySlots bodies → bodies.map List.length = lengths) :
    bytes.length = 15 * fieldPrefixLen + (2 + 2 + 16 + encodedLength suite.contents + 32 + 32 + 4 + 32) +
      policyLength header.policy + (lengths.map (fieldPrefixLen + ·)).sum +
      authorityLength header.authority.urls + header.privateMeta.length + 1 + Format.wrappedCekLen +
      coauthorsLength header.coauthors + header.orgId.length := by
  obtain ⟨parts, hparts, henc⟩ := Header.encode_eq_ok_iff.mp h
  obtain ⟨-, hsuiteEnc⟩ := encodeSuite_eq_ok_iff.mp hparts.suite
  have hslotsEnc := hparts.slots
  have hpolicy := hparts.policy
  rw [hversion] at hslotsEnc hpolicy
  obtain ⟨-, bodies, hbodies, hslotsEnc⟩ := encodeSlots_eq_ok_iff.mp hslotsEnc
  obtain ⟨-, urls, hurls, hauthority⟩ := encodeAuthority_eq_ok_iff.mp hparts.authority
  have hco := length_coauthors hversion hparts.coauthors
  have hsuiteLen : parts.suite.length = encodedLength suite.contents := by
    rw [hsuiteEnc.length_eq, hsuite]
  have hpolicyLen : parts.policy.length = policyLength header.policy := by
    rw [policyLength, hpolicy]
    rfl
  have hslotsLen : parts.slots.length = (lengths.map (fieldPrefixLen + ·)).sum := by
    rw [hslotsEnc.length_eq, encodedLength_numbered, hslots bodies hbodies]
  have hauthorityLen : parts.authority.length = authorityLength header.authority.urls := by
    rw [hauthority.length_eq, authorityLength, ← hurls.length_eq]
    simp [Authority.contents]
    omega
  rw [henc.length_eq, Header.contents, Header.contentsHead, hprev, hfooter]
  simp only [encodedLength_append, encodedLength_cons, encodedLength_nil, hco, hsuiteLen, hpolicyLen,
    hslotsLen, hauthorityLen, length_toLeBytes, List.Vector.toList_length, Option.map_none,
    optField_none, List.length_singleton, LeInt.width_uint16, LeInt.width_uint32]
  omega

/-- **The length of a packed header is a sum over the request.** -/
theorem length_header_of_assemble (hc : c.Lawful)
    (h : s.assemble sha c k rng request keys sealed g = .ok (out, g')) :
    out.header.length = headerLength s.plan request keys := by
  simp only [Session.assemble, Except.bind_eq_ok_iff, Except.mapError_eq_ok_iff, Prod.exists,
    Except.ok.injEq, Prod.mk.injEq] at h
  obtain ⟨_, -, privateMeta, _, hmeta, _, -, _, -, _, -, _, -, _, _, _, -, server, _, hserver,
    recipient, _, hrecipient, author, _, hauthor, finalBytes, hfinal, _, -, _, -, _, -, _, -, rfl, -⟩ := h
  have hslots : ∀ bodies, List.Forall₂
      (fun slot body ↦ encodeSlot containerVersion slot = .ok body) (server :: recipient ++ [author])
      bodies → bodies.map List.length = slotLengths s.plan keys := by
    intro bodies hbodies
    rw [List.cons_append] at hbodies
    obtain ⟨first, bodies, hfirst, hrest, rfl⟩ := List.forall₂_cons_left_iff.mp hbodies
    have hmiddle := (List.forall₂_take_append _ _ _ hrest.flip).flip
    have hlast := (List.forall₂_drop_append _ _ _ hrest.flip).flip
    obtain ⟨last, _, hlast, hnil, hdrop⟩ := List.forall₂_cons_left_iff.mp hlast
    obtain rfl := List.forall₂_nil_left_iff.mp hnil
    have hshare : s.secretA.expose.toList.length = secretLen := s.secretA.expose.toList_length
    rw [← List.take_append_drop recipient.length bodies, hdrop, List.map_cons, List.map_append,
      lengths_of_recipientSlots hc hrecipient hmiddle, List.map_singleton,
      length_of_authorSlot hc hauthor hlast, length_of_sealSlotBy (addsTag_seal hc _) hserver hfirst,
      hshare, slotLengths, List.cons_append]
    rfl
  rw [length_encode hfinal rfl rfl rfl rfl hslots, headerLength, headerOverhead,
    ← length_of_sealPrivateMeta hc hmeta]
  rfl

end Headers

/-! ### The message that carries a header back -/

/-- The length of the mutable region of a file that was not edited. -/
def contentDescLength : ℕ := 4 + (4 * fieldPrefixLen + 8 + 4 + 32 + 8) + 32

/-- The description of a packed file has a fixed length. -/
theorem length_contentDesc {sha : Sha2} {sealed : SealedInfo} {key : MacKey}
    {fileId : List.Vector UInt8 16} {version : UInt16} {bytes : List UInt8}
    (h : sealed.contentDesc.encode sha key fileId version = .ok bytes) :
    bytes.length = contentDescLength := by
  obtain ⟨-, body, bodyLen, tag, hbody, -, -, -, rfl⟩ := ContentDesc.encode_eq_ok_iff.mp h
  obtain ⟨-, editor, heditor, henc⟩ := ContentDesc.encodeBody_eq_ok_iff.mp hbody
  obtain rfl := Except.ok.inj heditor
  have hlen : body.length = 4 * fieldPrefixLen + 8 + 4 + 32 + 8 := by
    rw [henc.length_eq]
    simp [ContentDesc.contents, ContentDesc.commonContents, SealedInfo.contentDesc, fieldPrefixLen]
  rw [List.length_append, List.length_append, length_toLeBytes, LeInt.width_uint32, hlen,
    tag.toList_length]
  rfl

namespace Wire

/-- What the message adds to a header: its kind, the lengths of its two parts, and the region. -/
def doneOverhead : ℕ := 1 + 4 + (4 + contentDescLength)

/-- A response with a header is written exactly if it is not too large. -/
theorem encodeResponse_done_iff {done : Done} :
    (∃ buf, encodeResponse (.done done) = .ok buf) ↔
      1 + (4 + done.header.length) + (4 + done.contentDesc.length) ≤ maxMessage := by
  have hbytes : (doneBytes done).length = (4 + done.header.length) + (4 + done.contentDesc.length) := by
    rw [doneBytes, List.length_append, length_blobBytes, length_blobBytes]
  constructor
  · rintro ⟨buf, h⟩
    obtain ⟨size₁, h₁, h⟩ := Except.bind_eq_ok_iff.mp h
    obtain ⟨size₂, h₂, h⟩ := Except.bind_eq_ok_iff.mp h
    obtain ⟨-, hmax⟩ := of_writeMessage ((appends_blob _).bind (appends_blob _)) (eq_of_doneSize h₁ h₂) h
    rw [List.length_append, length_blobBytes, length_blobBytes] at hmax
    omega
  · intro hmax
    have hlimit : maxMessage < 2 ^ 64 := by decide
    have hadd : ∀ {size len : ℕ}, size + (4 + len) ≤ maxMessage →
        addBlob size len = .ok (size + (4 + len)) := by
      intro size len hle
      refine Except.bind_eq_ok_iff.mpr ⟨4 + len, add_eq_ok_iff.mpr ⟨by omega, rfl⟩, ?_⟩
      exact add_eq_ok_iff.mpr ⟨by omega, rfl⟩
    have h₁ : addBlob 1 done.header.length = .ok (1 + (4 + done.header.length)) := hadd (by omega)
    have h₂ := hadd hmax
    have hsize := eq_of_doneSize h₁ h₂
    refine ⟨Kind.done :: doneBytes done, ?_⟩
    show (addBlob 1 done.header.length >>= fun size ↦ addBlob size done.contentDesc.length >>=
      fun size ↦ writeMessage Kind.done size _) = _
    rw [h₁, Except.ok_bind, h₂, Except.ok_bind,
      writeMessage_eq Kind.done ((appends_blob _).bind (appends_blob _)) hsize, if_pos hmax]
    rfl

section Limit

variable {γ : Type} {sha : Sha2} {c : XChaCha} {k : Kems} {rng : Rng γ} {g g' : γ} {s : Session}
  {request : PackRequest} {keys : PublicKeys} {sealed : SealedInfo} {out : Assembled}

/-- **What was packed comes back exactly if its header leaves room for the message around it.** -/
theorem done_fits_iff (hc : c.Lawful)
    (h : s.assemble sha c k rng request keys sealed g = .ok (out, g')) :
    (∃ buf, encodeResponse (.done ⟨out.header, out.contentDesc⟩) = .ok buf) ↔
      headerLength s.plan request keys + doneOverhead ≤ maxMessage := by
  obtain ⟨-, -, _, _, _, _, _, _, _, _, _, _, -, -, -, -, -, -, -, -, -, hdesc⟩ := exists_of_assemble h
  rw [encodeResponse_done_iff, length_header_of_assemble hc h, length_contentDesc hdesc, doneOverhead]
  omega

end Limit

/-- The sample file comes back. -/
theorem done_fits_iff_sampleRequest :
    ∃ out, sampleSession.assemble sampleSha sampleCipher sampleKems sampleRng sampleRequest sampleKeys
        sampleSealed () = .ok (out, ()) ∧
      ∃ buf, encodeResponse (.done ⟨out.header, out.contentDesc⟩) = .ok buf := by
  obtain ⟨out, hout⟩ := exists_sampleAssembled
  exact ⟨out, hout, (done_fits_iff lawful_sampleCipher hout).mpr (by decide +kernel)⟩

end Wire

/-! ### Requests that are packed -/

section Packing

variable {γ : Type} (sha : Sha2) {c : XChaCha} (k : Kems) (rng : Rng γ) (g : γ)

/-- Private metadata are sealed if the name is short enough. -/
theorem exists_sealPrivateMeta (hc : c.Lawful) (cek : Cek) (headerSalt : Digest)
    (fileId : List.Vector UInt8 16) {request : PackRequest} (totalLen : UInt64)
    (hname : (utf8 request.originalName).length < 2 ^ 31) :
    ∃ privateMeta g', sealPrivateMeta sha c rng cek headerSalt fileId request totalLen g =
      .ok (privateMeta, g') := by
  have hshort : encodedLength [(MetaTag.name, utf8 request.originalName),
      (MetaTag.size, toLeBytes totalLen)] < 2 ^ 32 := by
    simp only [encodedLength_cons, encodedLength_nil, length_toLeBytes, LeInt.width_uint64,
      fieldPrefixLen]
    omega
  obtain ⟨fields, henc, hlen⟩ := Encodes.exists_of_short
    (by simp [MetaTag.name, MetaTag.size]) hshort
  obtain ⟨w₁, hw₁, henc⟩ := Except.bind_eq_ok_iff.mp (TlvWriter.writeAll_eq_ok_iff.mpr henc)
  rw [TlvWriter.putMany_cons] at hw₁
  obtain ⟨w, hw, hw₁⟩ := Except.bind_eq_ok_iff.mp hw₁
  rw [TlvWriter.putMany_cons] at hw₁
  obtain ⟨w₂, hw₂, hw₁⟩ := Except.bind_eq_ok_iff.mp hw₁
  obtain rfl := Except.ok.inj hw₁
  obtain rfl := Except.ok.inj henc
  have haad : (metadataAad fileId).length < 2 ^ 32 := by
    rw [metadataAad, List.length_append, fileId.toList_length]
    decide
  obtain ⟨nonce, hnonce⟩ := Kdf.exists_hedgedNonce sha Crypto.nonceLen .metaNonce
    (rng.fillBytes g Crypto.nonceLen).1.toList hlen haad
  obtain ⟨ct, hct⟩ := hc.exists_encrypt (Kdf.derivePrivateMetaKey sha cek headerSalt fileId).expose
    nonce (metadataAad fileId) hlen
  refine ⟨nonce.toList ++ ct, (rng.fillBytes g Crypto.nonceLen).2, ?_⟩
  simp only [sealPrivateMeta, sealMetadataHedged, sealWith, hw, hw₂, hnonce, hct,
    Except.ok_mapError, Except.ok_bind, Except.okOr_some]

/-- The content key is wrapped. -/
theorem exists_wrapCek (hc : c.Lawful) (kek : Kek) (cek : Cek) (coreHash : Digest) :
    ∃ wrapped commitment g', Wrap.wrapCek sha c kek cek coreHash rng g =
      .ok ((wrapped, commitment), g') := by
  have hcek : cek.expose.toList.length = secretLen := cek.expose.toList_length
  have hshort : cek.expose.toList.length < 2 ^ 32 := by rw [hcek]; decide
  have hhash : coreHash.toList.length < 2 ^ 32 := by rw [coreHash.toList_length]; decide
  obtain ⟨nonce, hnonce⟩ := Kdf.exists_hedgedNonce sha Wrap.wrapNonceLen .wrapNonce
    (rng.fillBytes g Wrap.wrapNonceLen).1.toList hshort hhash
  obtain ⟨sealed, hsealed⟩ := hc.exists_encrypt kek.expose nonce coreHash.toList hshort
  have hlen : (nonce.toList ++ sealed).length = Wrap.wrappedCekLen := by
    rw [List.length_append, nonce.toList_length, hc.length_encrypt hsealed, hcek]
    rfl
  have hvector : toVector? Wrap.wrappedCekLen (nonce.toList ++ sealed) =
      some ⟨nonce.toList ++ sealed, hlen⟩ := toVector?_eq_some_iff.mpr rfl
  refine ⟨⟨nonce.toList ++ sealed, hlen⟩, Kdf.slotCommitment sha kek coreHash,
    (rng.fillBytes g Wrap.wrapNonceLen).2, ?_⟩
  simp only [Wrap.wrapCek, hnonce, hsealed, hvector, Except.ok_bind, Except.okOr_some]
  rfl

/-- A key to which a secret can be sealed: it is canonical, and no agreement with it fails. -/
structure SealsTo (key : Digest) : Prop where
  canonical : canonicalX25519Public key = true
  shared : ∀ secret, k.x25519.diffieHellman secret key ≠ List.Vector.replicate 32 0

/-- A share is sealed to such a key, and the slot is written. -/
theorem exists_sealSlot (hc : c.Lawful) (kind : SlotKind) (hkind : KnownSlot.kindSeals kind = true)
    {recipientPublic : Digest} (hkey : SealsTo k recipientPublic) (purpose : Label)
    (fileId : List.Vector UInt8 16) (policyHash commitment : Digest)
    {plaintext : List UInt8} (hshort : plaintext.length < 2 ^ 16) :
    ∃ slot body g', sealSlot sha c k rng kind recipientPublic purpose fileId policyHash plaintext
      commitment g = .ok (.known slot, g') ∧ encodeKnownSlot containerVersion slot = .ok body ∧
        body.length < 2 ^ 17 := by
  have hplain : plaintext.length < 2 ^ 32 := by omega
  have haad : policyHash.toList.length < 2 ^ 32 := by rw [policyHash.toList_length]; decide
  obtain ⟨nonce, hnonce⟩ := Kdf.exists_hedgedNonce sha Crypto.nonceLen .sealNonce
    (rng.fillBytes (rng.fillBytes g 32).2 Crypto.nonceLen).1.toList hplain haad
  obtain ⟨key, hderived⟩ : ∃ key, Seal.deriveKey sha
      (k.x25519.diffieHellman (rng.fillBytes g 32).1 recipientPublic)
      (k.x25519.publicKey (rng.fillBytes g 32).1).toList recipientPublic.toList
      (Seal.slotInfo purpose Seal.defaultSealingKem fileId) = .ok key := by
    rw [Seal.deriveKey, Except.refuseIf_of_not (hkey.shared _), Except.ok_bind]
    exact ⟨_, rfl⟩
  obtain ⟨ct, hct⟩ := hc.exists_encrypt key nonce policyHash.toList hplain
  have hctLen := hc.length_encrypt hct
  let slot : KnownSlot := ⟨kind, Seal.defaultSealingKem,
    (k.x25519.publicKey (rng.fillBytes g 32).1).toList, nonce, ct, commitment,
    some recipientPublic.toList, none⟩
  have hfits : slot.Fits containerVersion := by
    refine ⟨congrArg some (List.Vector.toList_length _).symm, ?_, ?_⟩
    · rintro fpr ⟨⟩
      exact congrArg some (List.Vector.toList_length _).symm
    · have hpos : 0 < ct.length := by rw [hctLen]; exact Nat.add_pos_right _ (by decide)
      show checkSlotShape kind _ false ct.length true _ _ = .ok ()
      simp [checkSlotShape, hkind, hpos, refuseIf]
  have hlen : encodedLength slot.contents < 2 ^ 17 := by
    have hnonceLen : (@List.Vector.toList UInt8 24 nonce).length = 24 := nonce.toList_length
    have htag : Crypto.tagLen = 16 := rfl
    simp [slot, KnownSlot.contents, hctLen, hnonceLen, fieldPrefixLen]
    omega
  obtain ⟨body, henc, -⟩ := Encodes.exists_of_short slot.contents_increasing
    (hlen.trans (by decide : 2 ^ 17 < 2 ^ 32))
  refine ⟨slot, body, (rng.fillBytes (rng.fillBytes g 32).2 Crypto.nonceLen).2, ?_,
    encodeKnownSlot_eq_ok_iff.mpr ⟨hfits, henc⟩, henc.length_eq ▸ hlen⟩
  have hnot : ¬canonicalX25519Public recipientPublic = false := by rw [hkey.canonical]; decide
  simp only [sealSlot, sealSlotBy, Seal.seal_, Seal.sealNonce, Seal.sealCore,
    Except.refuseIf_of_not hnot, hnonce, hderived, hct, Except.ok_bind, Except.okOr_some,
    Except.ok_mapError, slot]

/-- A header without coauthors is written when its parts are. -/
theorem exists_encode {header : Header} {bodies : List (List UInt8)}
    (hchunkSize : checkChunkSize header.chunkSize = .ok header.chunkSize)
    (hsuite : header.suite = Suite.supported) (hauthority : header.authority.Valid)
    (hcoauthors : header.coauthors = none)
    (hbodies : List.Forall₂ (fun slot body ↦ encodeSlot header.containerVersion slot = .ok body)
      header.keySlots bodies)
    (hfew : bodies.length ≤ maxKeySlots) (hshort : ∀ body ∈ bodies, body.length ≤ 2 ^ 17)
    (hmeta : header.privateMeta.length < 2 ^ 32) (horg : header.orgId.length < 2 ^ 32) :
    ∃ bytes, header.encode = .ok bytes := by
  obtain ⟨policy, hpolicy, hpolicyLen, -⟩ := PolicyCodec.decode_encode
    (PolicyCodec.isNormal_normal header.containerVersion header.policy)
  rw [PolicyCodec.encode_normal] at hpolicy
  have hmax : maxKeySlots = 1024 := rfl
  have hslotsLen : encodedLength (numbered 0 bodies) < 2 ^ 32 := by
    refine (encodedLength_numbered_le hshort 0).trans_lt ?_
    refine (Nat.mul_le_mul_right _ hfew).trans_lt ?_
    decide
  obtain ⟨slots, hslots, hslotsLen⟩ := Encodes.exists_of_short
    (numbered_increasing (by omega)) hslotsLen
  have hcount : header.keySlots.length = bodies.length := hbodies.length_eq
  have hencoded : encodeSlots header.containerVersion header.keySlots = .ok slots :=
    encodeSlots_eq_ok_iff.mpr ⟨by omega, bodies, hbodies, hslots⟩
  have hnone : header.coauthorsBytes = .ok none := by
    rw [Header.coauthorsBytes, hcoauthors, ite_self]
  exact Header.exists_encode_of_parts hchunkSize (by omega) hsuite hpolicy hpolicyLen hencoded hslotsLen
    hauthority hnone nofun hmeta horg

/-- And the description is written. -/
theorem exists_contentDesc {sealed : SealedInfo} (hcount : sealed.chunkCount ≠ 0) (key : MacKey)
    (fileId : List.Vector UInt8 16) :
    ∃ bytes, sealed.contentDesc.encode sha key fileId containerVersion = .ok bytes := by
  have hlen : encodedLength (sealed.contentDesc.contents none) = 76 := by
    simp [ContentDesc.contents, ContentDesc.commonContents, SealedInfo.contentDesc, fieldPrefixLen]
  obtain ⟨body, henc, -⟩ := Encodes.exists_of_short
    (by simp [ContentDesc.contents, ContentDesc.commonContents, SealedInfo.contentDesc])
    (hlen.trans_lt (by decide))
  have hbody : sealed.contentDesc.encodeBody containerVersion = .ok body :=
    ContentDesc.encodeBody_eq_ok_iff.mpr ⟨fun h ↦ absurd h Bool.false_ne_true, none, rfl, henc⟩
  exact ⟨_, ContentDesc.encode_eq_ok_iff.mpr ⟨hcount, body, 76, _, hbody,
    (henc.length_eq.trans hlen).symm, by decide, rfl, rfl⟩⟩

/-- A request without a recipient and without coauthors that has what its header demands, with keys to
which the agreement does not fail. -/
structure Plain (request : PackRequest) (keys : PublicKeys) : Prop where
  recipient : request.recipient = .none
  chunkSize : checkChunkSize request.chunkSize = .ok request.chunkSize
  authority : Authority.Valid ⟨request.authorityUrls, keys.authoritySealing, keys.authorityLeaseVerify⟩
  coauthors : request.coauthors = none
  originalName : (utf8 request.originalName).length < 2 ^ 31
  orgId : request.orgId.length < 2 ^ 32
  deviceTpm : keys.deviceTpm = none
  authoritySealing : SealsTo k keys.authoritySealing
  device : SealsTo k keys.device

/-- The header without key material, and its hashes. -/
theorem exists_skeleton (s : Session) {request : PackRequest} {keys : PublicKeys} (sealed : SealedInfo)
    {privateMeta : List UInt8} (hplain : Plain k request keys) (hmeta : privateMeta.length < 2 ^ 32) :
    ∃ skeleton parsed coreHash policyHash,
      (s.skeleton request keys sealed privateMeta).encode = .ok skeleton ∧
        Header.decode skeleton = .ok parsed ∧
        Header.coreHash sha.sha256 skeleton parsed.spans = .ok coreHash ∧
        Header.policyHash sha.sha256 skeleton parsed.spans = .ok policyHash := by
  obtain ⟨skeleton, hskeleton⟩ :
      ∃ bytes, (s.skeleton request keys sealed privateMeta).encode = .ok bytes :=
    exists_encode hplain.chunkSize rfl hplain.authority hplain.coauthors .nil (Nat.zero_le _) nofun
      hmeta hplain.orgId
  obtain ⟨parsed, hparsed, -⟩ := Header.decode_normalForm rfl rfl rfl
    (fun slot hslot ↦ absurd hslot List.not_mem_nil) hskeleton
  obtain ⟨l, -, hcore⟩ := coreHash_of_decode sha.sha256 hparsed
  obtain ⟨policy, -, hpolicy⟩ := policyHash_encode sha.sha256 hskeleton hparsed
  exact ⟨skeleton, parsed, _, _, hskeleton, hparsed, hcore, hpolicy⟩

/-- The header with key material has the same core. -/
theorem exists_final {s : Session} {request : PackRequest} {keys : PublicKeys} {sealed : SealedInfo}
    {privateMeta skeleton : List UInt8} {parsed : ParsedHeader} {coreHash : Digest}
    {slots : List KnownSlot} {bodies : List (List UInt8)} (wrappedCek : List.Vector UInt8 wrappedCekLen)
    (hplain : Plain k request keys) (hmeta : privateMeta.length < 2 ^ 32)
    (hskeleton : (s.skeleton request keys sealed privateMeta).encode = .ok skeleton)
    (hparsed : Header.decode skeleton = .ok parsed)
    (hcore : Header.coreHash sha.sha256 skeleton parsed.spans = .ok coreHash)
    (hbodies : List.Forall₂ (fun slot body ↦ encodeSlot containerVersion slot = .ok body)
      (slots.map KeySlot.known) bodies)
    (hfew : bodies.length ≤ maxKeySlots) (hshort : ∀ body ∈ bodies, body.length ≤ 2 ^ 17) :
    ∃ final finalParsed, { s.skeleton request keys sealed privateMeta with
        keySlots := slots.map KeySlot.known, wrappedCek }.encode = .ok final ∧
      Header.decode final = .ok finalParsed ∧
      Header.coreHash sha.sha256 final finalParsed.spans = .ok coreHash := by
  obtain ⟨final, hfinal⟩ : ∃ bytes, { s.skeleton request keys sealed privateMeta with
      keySlots := slots.map KeySlot.known, wrappedCek }.encode = .ok bytes :=
    exists_encode hplain.chunkSize rfl hplain.authority hplain.coauthors hbodies hfew hshort hmeta
      hplain.orgId
  have hknown : ∀ slot ∈ slots.map KeySlot.known, ∃ s, slot = .known s := by
    intro slot hslot
    obtain ⟨s, -, rfl⟩ := List.mem_map.mp hslot
    exact ⟨s, rfl⟩
  obtain ⟨finalParsed, hfinalParsed, -⟩ := Header.decode_normalForm rfl rfl rfl hknown hfinal
  have hsame := coreHash_with_keyMaterial sha.sha256 hskeleton hfinal hparsed hfinalParsed
  exact ⟨final, finalParsed, hfinal, hfinalParsed, hsame.trans hcore⟩

/-- **A plain request is packed**, whatever the generator yields. -/
theorem exists_assemble (hc : c.Lawful) {s : Session} {request : PackRequest} {keys : PublicKeys}
    {sealed : SealedInfo} (hplain : Plain k request keys) (hplan : s.plan = .none)
    (hsize : request.chunkSize = s.chunkSize) (hcount : sealed.chunkCount ≠ 0) :
    ∃ out g', s.assemble sha c k rng request keys sealed g = .ok (out, g') := by
  have hmatches : s.plan.matches_ sha s.fileId request.recipient = true := by
    rw [hplan, hplain.recipient]
    rfl
  have hfirst : ¬(request.chunkSize ≠ s.chunkSize ∨
      s.plan.matches_ sha s.fileId request.recipient = false) := by
    rw [hmatches, not_or]
    exact ⟨not_not.mpr hsize, Bool.true_eq_false.mp⟩
  obtain ⟨privateMeta, g₁, hmeta⟩ := exists_sealPrivateMeta sha rng g hc s.cek s.headerSalt s.fileId
    sealed.totalLen hplain.originalName
  have hmetaLen : privateMeta.length < 2 ^ 32 := by
    have hname := hplain.originalName
    rw [length_of_sealPrivateMeta hc hmeta, metaLength]
    simp only [Crypto.nonceLen, fieldPrefixLen, Crypto.tagLen]
    omega
  obtain ⟨skeleton, parsed, coreHash, policyHash, hskeleton, hparsed, hcore, hpolicy⟩ :=
    exists_skeleton sha k s sealed hplain hmetaLen
  obtain ⟨wrappedCek, commitment, g₂, hwrap⟩ := exists_wrapCek sha rng g₁ hc
    (Kdf.deriveKek sha s.fileId request.orgId s.secretA s.secretB) s.cek coreHash
  obtain ⟨server, serverBody, g₃, hserver, hserverBody, hserverLen⟩ := exists_sealSlot sha k rng g₂ hc
    .server rfl hplain.authoritySealing .slotServer s.fileId policyHash commitment
    (s.secretA.expose.toList_length.trans_lt (by decide))
  have hrecipient : s.recipientSlots sha c k rng policyHash commitment g₃ = .ok ([], g₃) := by
    rw [Session.recipientSlots, hplan]
  have hshares : (bothShares s.secretA s.secretB).length < 2 ^ 16 := by
    rw [bothShares, List.length_append, List.Vector.toList_length, List.Vector.toList_length]
    decide
  obtain ⟨author, authorBody, g₄, hauthor, hauthorBody, hauthorLen⟩ := exists_sealSlot sha k rng g₃ hc
    .authorDevice rfl hplain.device .slotAuthorDevice s.fileId policyHash commitment hshares
  have hauthor : s.authorSlot sha c k rng keys policyHash commitment g₃ = .ok (.known author, g₄) := by
    rw [Session.authorSlot, hplan, hplain.deviceTpm]
    exact hauthor
  have hbodies : List.Forall₂ (fun slot body ↦ encodeSlot containerVersion slot = .ok body)
      ([server, author].map KeySlot.known) [serverBody, authorBody] :=
    .cons hserverBody (.cons hauthorBody .nil)
  have hfew : [serverBody, authorBody].length ≤ maxKeySlots := (by decide : 2 ≤ maxKeySlots)
  have hshort : ∀ body ∈ [serverBody, authorBody], body.length ≤ 2 ^ 17 :=
    List.forall_mem_cons.mpr ⟨hserverLen.le, List.forall_mem_singleton.mpr hauthorLen.le⟩
  obtain ⟨final, finalParsed, hfinal, hfinalParsed, hsame⟩ :=
    exists_final sha k wrappedCek hplain hmetaLen hskeleton hparsed hcore hbodies hfew hshort
  have hfinal : { s.skeleton request keys sealed privateMeta with
      keySlots := KeySlot.known server :: [] ++ [KeySlot.known author], wrappedCek }.encode = .ok final :=
    hfinal
  obtain ⟨contentDesc, hdesc⟩ : ∃ bytes, sealed.contentDesc.encode sha
      (Kdf.deriveContentMacKey sha s.cek s.headerSalt s.fileId) s.fileId
      (s.skeleton request keys sealed privateMeta).containerVersion = .ok bytes :=
    exists_contentDesc sha hcount _ _
  refine ⟨⟨final, contentDesc⟩, g₄, ?_⟩
  simp only [Session.assemble, Except.refuseIf_of_not hfirst, hmeta, hskeleton, hparsed, hcore, hpolicy,
    hwrap, hserver, hrecipient, hauthor, hfinal, hfinalParsed, hsame, Except.ok_bind,
    Except.ok_mapError, Except.refuseIf_of_not (not_not.mpr (rfl : coreHash = coreHash)), hdesc]

end Packing

/-! ### A header that is lost -/

/-- A plain request of an organisation. -/
def requestOf (orgId : List UInt8) : PackRequest where
  originalName := "a"
  policy := Policy.denyAll.allow .view
  chunkSize := 4096
  orgId := orgId
  authorityUrls := []
  recipient := .none
  coauthors := none

/-- The length of the header is known from the organization alone. -/
theorem headerLength_requestOf (orgId : List UInt8) :
    headerLength .none (requestOf orgId) sampleKeys = 1047 + orgId.length := by
  have hempty : headerOverhead .none (requestOf []) sampleKeys = 1047 := by decide +kernel
  have hoverhead : headerOverhead .none (requestOf orgId) sampleKeys = 1047 := by
    simp only [headerOverhead, requestOf] at hempty ⊢
    exact hempty
  rw [headerLength, hoverhead, requestOf]

namespace Wire

/-- The request itself fits through the pipe if its header is not longer than the greatest one. -/
theorem exists_encodeRequest_requestOf {orgId : List UInt8} (hlen : orgId.length ≤ 1047529) :
    ∃ buf, encodeRequest (.plan (.fromParts (requestOf orgId) sampleKeys)) = .ok buf := by
  have hpolicy : (PolicyCodec.encode containerVersion (requestOf []).policy).map List.length =
      .ok 130 := by
    decide +kernel
  obtain ⟨policy, hpolicy, hpolicyLen⟩ := Except.map_eq_ok_iff.mp hpolicy
  have hname : (utf8 "a").length = 1 := by decide +kernel
  have hadd : ∀ {a b : ℕ}, a + b < 2 ^ 64 → add a b = .ok (a + b) := fun h ↦ if_pos h
  have hsize : planSize (.fromParts (requestOf orgId) sampleKeys) policy = .ok (orgId.length + 285) := by
    simp (disch := omega) only [planSize, addBlob, blobSize, addOptional, addCoauthors,
      PlanArgs.fromParts, requestOf, sampleKeys, recipientSize, hname, hpolicyLen, hadd, Except.ok_bind,
      Except.foldlM_nil, Except.ok.injEq]
    omega
  obtain ⟨hmessage, hroster⟩ := eq_of_planSize 0 hsize
  have hmax : orgId.length + 285 ≤ maxMessage := by
    have hlimit : maxMessage = 1048576 := rfl
    omega
  have hcount : UInt32.tryFrom (PlanArgs.fromParts (requestOf orgId) sampleKeys).authorityUrls.length =
      some 0 := rfl
  refine ⟨Kind.plan :: planBytes (.fromParts (requestOf orgId) sampleKeys) policy 0, ?_⟩
  simp only [encodeRequest]
  rw [show (PlanArgs.fromParts (requestOf orgId) sampleKeys).policy = (requestOf []).policy from rfl,
    hpolicy, Except.ok_mapError, Except.ok_bind, hcount, Except.okOr_some, Except.ok_bind, hsize,
    Except.ok_bind, writeMessage_eq Kind.plan (appends_writePlan policy 0 hroster) hmessage, if_pos hmax]

end Wire

/-- **A header of the greatest length is packed and does not come back**, whatever the generator
yields. -/
theorem exists_lost_requestOf {γ : Type} (sha : Sha2) {c : XChaCha} (hc : c.Lawful) {k : Kems}
    (rng : Rng γ) (g : γ) (hkey : SealsTo k sampleServerPublic) {orgId : List UInt8}
    (hlen : orgId.length = 1047529) :
    ∃ out g', (plan sha rng (requestOf orgId) g).1.1.assemble sha c k rng (requestOf orgId) sampleKeys
        sampleSealed (plan sha rng (requestOf orgId) g).2 = .ok (out, g') ∧
      out.header.length = maxHeaderLen.toNat ∧
      ¬∃ buf, Wire.encodeResponse (.done ⟨out.header, out.contentDesc⟩) = .ok buf := by
  have hplain : Plain k (requestOf orgId) sampleKeys :=
    ⟨rfl, (by decide : checkChunkSize 4096 = .ok 4096), ⟨Nat.zero_le _, nofun, rfl, rfl⟩, rfl,
      (by decide +kernel : (utf8 "a").length < 2 ^ 31), hlen.trans_lt (by decide), rfl, hkey, hkey⟩
  obtain ⟨out, g', hout⟩ : ∃ out g', (plan sha rng (requestOf orgId) g).1.1.assemble sha c k rng
      (requestOf orgId) sampleKeys sampleSealed (plan sha rng (requestOf orgId) g).2 = .ok (out, g') :=
    exists_assemble sha k rng _ hc hplain rfl rfl (by decide)
  have hheader : headerLength .none (requestOf orgId) sampleKeys = maxHeaderLen.toNat := by
    rw [headerLength_requestOf, hlen]
    decide
  refine ⟨out, g', hout, (length_header_of_assemble hc hout).trans hheader, ?_⟩
  rw [Wire.done_fits_iff hc hout]
  show ¬headerLength .none (requestOf orgId) sampleKeys + Wire.doneOverhead ≤ Wire.maxMessage
  rw [hheader]
  decide

/-- The sample server has a key that is sealed to. -/
theorem sealsTo_sampleServerPublic : SealsTo sampleKems sampleServerPublic where
  canonical := by decide +kernel
  shared _ h := by
    have hfirst : some (0xe0 : UInt8) = some 0 := congrArg (fun key : Digest ↦ key.toList.head?) h
    exact absurd hfirst (by decide)

/-- **An organisation that fills the header.** The request fits through the pipe and is packed, its
header is one that the format accepts, and the response with the header is refused. -/
theorem long_header_lost :
    (∃ buf, Wire.encodeRequest (.plan (.fromParts (requestOf (List.replicate 1047529 0x6f)) sampleKeys)) =
        .ok buf) ∧
      ∃ out, (plan sampleSha sampleRng (requestOf (List.replicate 1047529 0x6f)) ()).1.1.assemble
          sampleSha sampleCipher sampleKems sampleRng (requestOf (List.replicate 1047529 0x6f))
          sampleKeys sampleSealed () = .ok (out, ()) ∧
        out.header.length = maxHeaderLen.toNat ∧
        ¬∃ buf, Wire.encodeResponse (.done ⟨out.header, out.contentDesc⟩) = .ok buf := by
  have hlen : (List.replicate 1047529 (0x6f : UInt8)).length = 1047529 := List.length_replicate
  obtain ⟨out, ⟨⟩, hout, hheader, hlost⟩ := exists_lost_requestOf sampleSha lawful_sampleCipher sampleRng
    () sealsTo_sampleServerPublic hlen
  exact ⟨Wire.exists_encodeRequest_requestOf hlen.le, out, hout, hheader, hlost⟩

end OpenCrate.Engine
