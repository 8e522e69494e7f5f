import OpenCrate.Engine.Pack
import OpenCrate.Format.Payload

/-!
# What is packed can be opened

The packer and the reader share nothing but the bytes. From the bytes of the header the reader
recomputes both hashes, the purpose of each slot, the salt and the layout; a difference in any of them
would make the file unreadable for good. `Session.Opens` collects what the reader does, and holds for
everything that the packer assembles.
-/

namespace OpenCrate.Engine

open Crypto Format
open Except (refuseIf okOr)

/-! ### The reader's side -/

section Reader

variable (sha : Sha2) (blake3 : List UInt8 → Digest) (c : XChaCha) (k : Kems)

/-- The slot names the public key, and opens for whoever holds the secret half of it, under the
purpose and the policy hash that the reader has. -/
def SlotOpens (fileId : List.Vector UInt8 16) (policyHash : Digest) (purpose : Label)
    (publicKey plaintext : List UInt8) (slot : KnownSlot) : Prop :=
  slot.keyFpr = some publicKey ∧
    Seal.OpensFor sha c k slot.kem publicKey (slotBlob slot) (Seal.slotInfo purpose slot.kem fileId)
      policyHash.toList plaintext

/-- There is one slot of a recipient's identity, with the mechanism, and it opens to the share. -/
def IdentityOpens (fileId : List.Vector UInt8 16) (policyHash : Digest) (b : SecretB) (kem : KemAlg)
    (publicKey : List UInt8) (slots : List KeySlot) : Prop :=
  ∃ slot, slots = [.known slot] ∧ slot.kind = .recipientIdentity ∧ slot.kem = kem ∧
    SlotOpens sha c k fileId policyHash .slotRecipient publicKey b.expose.toList slot

/-- The recipient slot gives the recipient share: a sealed slot opens to it, and a claim code derives it
together with the commitment of the slot. -/
def RecipientOpens (fileId : List.Vector UInt8 16) (policyHash : Digest) (b : SecretB) :
    Recipient → List KeySlot → Prop
  | .none, slots => slots = []
  | .identity publicKey, slots =>
    IdentityOpens sha c k fileId policyHash b .x25519HkdfSha256 publicKey.toList slots
  | .hybrid publicKey, slots =>
    IdentityOpens sha c k fileId policyHash b .xWing publicKey.toList slots
  | .hardwareHybrid publicKey, slots =>
    IdentityOpens sha c k fileId policyHash b .mlKem768P256 publicKey.toList slots
  | .claim secret, slots => ∃ slot commit, slots = [.known slot] ∧ slot.kind = .recipientClaim ∧
      slot.claimCommit = some commit ∧ Kdf.secretBFromClaim sha fileId secret = (b, commit)

/-- The frame of a chunk stands where the layout places it, and opens to the bytes of the content at its
position. -/
def ChunkOpens (key : PayloadKey) (alg : AeadAlg) (fileId : List.Vector UInt8 16)
    (content payload : List UInt8) (layout : Layout) (index : UInt32) : Prop :=
  ∃ (len : UInt64) (nonce : Nonce) (framed : List UInt8) (leaf : Leaf) (pos : ℕ),
    layout.plaintextLenOf index = .ok len ∧
    slice? payload pos (pos + (24 + len.toNat + 16)) = some (nonce.toList ++ framed) ∧
    (∀ start stop, layout.ciphertextSpan index = .ok (start, stop) ↔
      start.toNat = layout.payloadOffset.toNat + pos ∧
        stop.toNat = layout.payloadOffset.toNat + pos + (24 + len.toNat + 16)) ∧
    openChunk blake3 c key alg fileId index nonce framed len.toNat =
      .ok ((content.drop (index.toNat * layout.chunkSize.toNat)).take len.toNat, leaf)

/-- What the reader does with the bytes of a header and of a mutable region, for the secrets of the
session that wrote them: it reads the header and recomputes both hashes, the slots give the shares, the
shares unwrap the content key, and under it the region and every chunk are opened. -/
structure Opens (s : Session) (request : PackRequest) (keys : PublicKeys) (content payload : List UInt8)
    (out : Assembled) (parsed : ParsedHeader) (coreHash policyHash : Digest) (desc : ContentDesc) :
    Prop where
  decoded : Header.decode out.header = .ok parsed
  coreHash_eq : Header.coreHash sha.sha256 out.header parsed.spans = .ok coreHash
  policyHash_eq : Header.policyHash sha.sha256 out.header parsed.spans = .ok policyHash
  slots : ∃ server recipient author,
    parsed.header.keySlots = .known server :: recipient ++ [.known author] ∧
    server.kind = .server ∧ server.kem = .x25519HkdfSha256 ∧
    SlotOpens sha c k parsed.header.fileId policyHash .slotServer keys.authoritySealing.toList
      s.secretA.expose.toList server ∧
    RecipientOpens sha c k parsed.header.fileId policyHash s.secretB request.recipient recipient ∧
    author.kind = .authorDevice ∧
    ∃ publicKey, keys.deviceKey author.kem = some publicKey ∧
      SlotOpens sha c k parsed.header.fileId policyHash .slotAuthorDevice publicKey
        (bothShares s.secretA s.secretB) author
  unwraps : ∀ slot, .known slot ∈ parsed.header.keySlots →
    Wrap.unwrapCek sha c
      (Kdf.deriveKek sha parsed.header.fileId parsed.header.orgId s.secretA s.secretB)
      parsed.header.wrappedCek slot.commitment coreHash = .ok s.cek
  region : ∀ rest, ContentDesc.decodeVerified sha (out.contentDesc ++ rest)
    (Kdf.deriveContentMacKey sha s.cek parsed.header.headerSalt parsed.header.fileId)
    parsed.header.fileId parsed.header.containerVersion = .ok (desc, out.contentDesc.length)
  root : desc.treeRoot = parsed.header.originalRoot
  chunkSize : desc.checkAgainstChunkSize parsed.header.chunkSize = .ok ()
  totalLen : desc.totalLen.toNat = content.length
  chunks : ∀ off, ∃ layout,
    Layout.new parsed.header.chunkSize desc.chunkCount desc.totalLen off = .ok layout ∧
    ∀ index < desc.chunkCount, ChunkOpens blake3 c
      (Kdf.derivePayloadKey sha s.cek parsed.header.headerSalt parsed.header.fileId
        parsed.header.chunkSize parsed.header.suite.aead)
      parsed.header.suite.aead parsed.header.fileId content payload layout index

end Reader

section Chunks

variable {sha : Sha2} {blake3 : List UInt8 → Digest} {c : XChaCha} {call : StreamCall}
  {content payload : List UInt8} {layout : Layout} {index : UInt32}

/-- What was sealed at a position is opened there. -/
theorem chunkOpens_of_chunkAt (hc : c.Lawful) (hsize : layout.chunkSize = call.chunkSize)
    (h : ChunkAt sha blake3 c call content payload layout index) :
    ChunkOpens blake3 c call.key call.alg call.fileId content payload layout index := by
  obtain ⟨len, chunk, nonceSeed, pos, hlen, hsealed, hframe, hslice, hspan⟩ := h
  have hpiece : ((content.drop (index.toNat * call.chunkSize.toNat)).take len.toNat).length ≤
      len.toNat := List.length_take_le _ _
  refine ⟨len, chunk.nonce, chunk.framed, chunk.leaf, pos, hlen, ?_, ?_, ?_⟩
  · rw [← hframe]
    exact hslice
  · rw [← hframe]
    exact hspan
  · rw [hsize]
    exact openChunk_of_sealChunkHedged hc hpiece hsealed

end Chunks

/-! ### Plan and slots -/

section Planned

variable {γ : Type} {sha : Sha2} {c : XChaCha} {k : Kems} {rng : Rng γ} {g g' : γ} {s : Session}

variable (sha) in
/-- How a recipient is planned; the share of a claim code is the one that the code yields. -/
def Recipient.PlannedAs (fileId : List.Vector UInt8 16) (b : SecretB) :
    Recipient → RecipientPlan → Prop
  | .none, plan => plan = .none
  | .identity publicKey, plan => plan = .identity publicKey
  | .hybrid publicKey, plan => plan = .hybrid publicKey
  | .hardwareHybrid publicKey, plan => plan = .hardwareHybrid publicKey
  | .claim secret, plan =>
    ∃ commit, Kdf.secretBFromClaim sha fileId secret = (b, commit) ∧ plan = .claim commit

/-- What the first call hands out. -/
theorem plannedAs_of_plan {request : PackRequest} {p : Plan}
    (h : plan sha rng request g = ((s, p), g')) :
    request.recipient.PlannedAs sha s.fileId s.secretB s.plan ∧ s.chunkSize = request.chunkSize ∧
      p = ⟨s.fileId, Kdf.derivePayloadKey sha s.cek s.headerSalt s.fileId request.chunkSize
        suite.aead, request.chunkSize, suite.aead⟩ := by
  obtain ⟨⟨rfl, rfl⟩, -⟩ := Prod.mk.inj h |>.imp_left Prod.mk.inj
  refine ⟨?_, rfl, rfl⟩
  show request.recipient.PlannedAs sha _ (planRecipient sha rng _ request.recipient _).1.1
    (planRecipient sha rng _ request.recipient _).1.2
  cases request.recipient with
  | claim secret => exact ⟨_, rfl, rfl⟩
  | _ => rfl

/-- A planned recipient has the slot that gives its share. -/
theorem recipientOpens_of_recipientSlots (hk : k.Lawful) (hc : c.Lawful) {recipient : Recipient}
    {policyHash commitment : Digest} {slots : List KeySlot}
    (hplan : recipient.PlannedAs sha s.fileId s.secretB s.plan)
    (h : s.recipientSlots sha c k rng policyHash commitment g = .ok (slots, g')) :
    RecipientOpens sha c k s.fileId policyHash s.secretB recipient slots := by
  -- the three kinds of identities are alike: the slot is sealed to the key of the plan
  have hidentity : ∀ {kem publicKey}, s.plan.key? = some (kem, publicKey) →
      IdentityOpens sha c k s.fileId policyHash s.secretB kem publicKey slots := by
    intro kem publicKey hkey
    rcases exists_of_recipientSlots h with ⟨hnone, -⟩ | ⟨_, hclaim, -⟩ |
      ⟨_, _, slot, hkey', -, rfl, hslot⟩
    · rw [hnone] at hkey
      cases hkey
    · rw [hclaim] at hkey
      cases hkey
    · obtain ⟨rfl, rfl⟩ := Prod.mk.inj (Option.some_inj.mp (hkey.symm.trans hkey'))
      refine ⟨slot, rfl, hslot.kind_eq, hslot.kem_eq, hslot.keyFpr_eq, ?_⟩
      rw [hslot.kem_eq]
      exact hslot.opens hk hc
  cases recipient with
  | none =>
    have hslots : s.recipientSlots sha c k rng policyHash commitment g = .ok ([], g) := by
      rw [Session.recipientSlots, show s.plan = .none from hplan]
    exact (Prod.mk.inj (Except.ok.inj (h.symm.trans hslots))).1
  -- a claim code has a slot without a sealed share
  | claim secret =>
    obtain ⟨commit, hshare, hplan⟩ := hplan
    have hslots : s.recipientSlots sha c k rng policyHash commitment g =
        .ok ([claimSlot commit commitment], g) := by
      rw [Session.recipientSlots, hplan]
    obtain ⟨rfl, -⟩ := Prod.mk.inj (Except.ok.inj (h.symm.trans hslots))
    exact ⟨_, commit, rfl, rfl, rfl, hshare⟩
  | identity publicKey => exact hidentity (by rw [show s.plan = _ from hplan]; rfl)
  | hybrid publicKey => exact hidentity (by rw [show s.plan = _ from hplan]; rfl)
  | hardwareHybrid publicKey => exact hidentity (by rw [show s.plan = _ from hplan]; rfl)

/-- Every slot carries the commitment to the wrapping key. -/
theorem commitment_of_recipientSlots {policyHash commitment : Digest} {slots : List KeySlot}
    (h : s.recipientSlots sha c k rng policyHash commitment g = .ok (slots, g')) {slot : KnownSlot}
    (hslot : .known slot ∈ slots) : slot.commitment = commitment := by
  rcases exists_of_recipientSlots h with ⟨-, rfl⟩ | ⟨_, -, rfl⟩ | ⟨_, _, known, -, -, rfl, hknown⟩
  · exact absurd hslot List.not_mem_nil
  · rw [KeySlot.known.inj (List.mem_singleton.mp hslot)]
  · rw [KeySlot.known.inj (List.mem_singleton.mp hslot)]
    exact hknown.commitment_eq

end Planned

/-! ### Opening -/

section Opening

variable {γ δ ε σ : Type} {sha : Sha2} {blake3 : List UInt8 → Digest} {c : XChaCha} {k : Kems}
  {rng : Rng γ} {g g₁ g₂ g₃ : γ} {request : PackRequest} {keys : PublicKeys} {s : Session} {p : Plan}
  {out : Assembled}

/-- **Everything the engine packs can be opened.** For every content, every way of reading it, every
request with its recipient, every set of keys and all draws: if the plan was made, the stream sealed
under the planned key, and the header assembled, then the reader opens the file from its bytes. -/
theorem packed_file_opens (hk : k.Lawful) (hc : c.Lawful)
    (hplan : plan sha rng request g = ((s, p), g₁)) {source : Source ε σ} {src src' : σ}
    {content payload : List UInt8} (hcontent : Delivers source src content) {rng' : Rng δ} {d d' : δ}
    {sealed : Sealed}
    (hstream : sealChunks sha blake3 c ⟨p.payloadKey, p.aead, p.fileId, p.chunkSize⟩ rng' source
      collect ⟨src, [], d⟩ = .ok (sealed, ⟨src', payload, d'⟩))
    (hassemble : s.assemble sha c k rng request keys
      ⟨sealed.totalLen, sealed.chunkCount, sealed.treeRoot⟩ g₂ = .ok (out, g₃)) :
    ∃ parsed coreHash policyHash desc,
      Opens sha blake3 c k s request keys content payload out parsed coreHash policyHash desc := by
  obtain ⟨hplanned, hchunkSize, rfl⟩ := plannedAs_of_plan hplan
  obtain ⟨-, -, _, _, _, _, _, _, _, _, _, _, -, -, -, -, -, -, -, -, hfinal, hdesc⟩ :=
    exists_of_assemble hassemble
  obtain ⟨parts, hparts⟩ := Header.exists_encoded hfinal
  have hsize : checkChunkSize request.chunkSize = .ok request.chunkSize := hparts.chunkSize
  obtain ⟨parsed, coreHash, policyHash, privateMeta, wrappedCek, commitment, server, recipient, author,
    hparsed, hcore, hpolicy, hheader, ⟨_, _, hwrap⟩, hserver, ⟨_, _, hrecipient⟩, _, _, hauthor⟩ :=
    exists_parsed_of_assemble hassemble
  obtain ⟨kem, publicKey, author, hkey, -, ⟨⟩, hauthor⟩ := exists_of_authorSlot hauthor
  obtain ⟨htotal, hlayout⟩ := chunkAt_of_sealChunks sha blake3 rng' hc rfl hsize hcontent hstream
  have hslots : parsed.header.keySlots = .known server :: recipient ++ [.known author] := by
    rw [hheader]
    rfl
  -- what the reader takes from the header is what the session has
  have hfileId : parsed.header.fileId = s.fileId := by rw [hheader]; rfl
  have hsalt : parsed.header.headerSalt = s.headerSalt := by rw [hheader]; rfl
  have horg : parsed.header.orgId = request.orgId := by rw [hheader]; rfl
  have hwrapped : parsed.header.wrappedCek = wrappedCek := by rw [hheader]; rfl
  have hversion : parsed.header.containerVersion = containerVersion := by rw [hheader]; rfl
  have hsizeEq : parsed.header.chunkSize = request.chunkSize := by rw [hheader]; rfl
  have haead : parsed.header.suite.aead = suite.aead := by rw [hheader]; rfl
  refine ⟨parsed, coreHash, policyHash,
    SealedInfo.contentDesc ⟨sealed.totalLen, sealed.chunkCount, sealed.treeRoot⟩, {
      decoded := hparsed
      coreHash_eq := hcore
      policyHash_eq := hpolicy
      slots := ?_
      unwraps := ?_
      region := ?_
      root := ?_
      chunkSize := ?_
      totalLen := htotal
      chunks := ?_ }⟩
  · refine ⟨server, recipient, author, hslots, hserver.kind_eq, hserver.kem_eq, ⟨hserver.keyFpr_eq, ?_⟩,
      ?_, hauthor.kind_eq, publicKey, ?_, hauthor.keyFpr_eq, ?_⟩
    · rw [hserver.kem_eq, hfileId]
      exact hserver.opens hk hc
    · rw [hfileId]
      exact recipientOpens_of_recipientSlots hk hc hplanned hrecipient
    · rw [hauthor.kem_eq]
      exact hkey
    · rw [hauthor.kem_eq, hfileId]
      exact hauthor.opens hk hc
  · intro slot hslot
    have hcommitment : slot.commitment = commitment := by
      rw [hslots, List.cons_append, List.mem_cons, List.mem_append, List.mem_singleton] at hslot
      rcases hslot with hslot | hslot | hslot
      · rw [KeySlot.known.inj hslot]
        exact hserver.commitment_eq
      · exact commitment_of_recipientSlots hrecipient hslot
      · rw [KeySlot.known.inj hslot]
        exact hauthor.commitment_eq
    rw [hfileId, horg, hwrapped, hcommitment]
    exact Wrap.unwrapCek_of_wrapCek hc hwrap
  · intro rest
    obtain ⟨body, -, hread⟩ := (ContentDesc.decodeVerifiedWithBody_encode_iff hdesc rest).mpr nofun
    rw [hfileId, hsalt, hversion, ContentDesc.decodeVerified, hread]
    rfl
  · rw [hheader]
    rfl
  · obtain ⟨layout, hnew, -⟩ := hlayout 0
    rw [hsizeEq]
    exact Except.map_eq_ok_iff.mpr ⟨layout, hnew, rfl⟩
  · intro off
    obtain ⟨layout, hnew, hlayoutSize, hchunks⟩ := hlayout off
    rw [hsizeEq, hfileId, hsalt, haead]
    exact ⟨layout, hnew, fun index hindex ↦ chunkOpens_of_chunkAt hc hlayoutSize (hchunks index hindex)⟩

end Opening

/-- BLAKE3 as it is at the only leaf of the sample file and at the root over it. -/
def sampleBlake3 (input : List UInt8) : Digest :=
  if input.head? = some 0x00 then
    ⟨[0xc4, 0xe5, 0xfb, 0x1a, 0xeb, 0xae, 0x4c, 0xcc, 0x6a, 0x97, 0x83, 0xa1, 0x3d, 0xe9, 0xc7, 0x4f,
     0x9b, 0x04, 0xef, 0x46, 0x01, 0xa5, 0xea, 0x34, 0x3c, 0x6f, 0xaf, 0x16, 0x1d, 0xd4, 0x4f, 0xdf], rfl⟩
  else sampleSealed.treeRoot

/-- The stream of the sample file. -/
def sampleCall : StreamCall :=
  ⟨⟨samplePayloadKey⟩, .xChaCha20Poly1305, sampleSession.fileId, 4096⟩

theorem exists_sampleStream :
    ∃ sealed rest payload, sealChunks sampleSha sampleBlake3 sampleCipher sampleCall sampleRng
        (listSource : Source Empty _) collect ⟨utf8 "hi", [], ()⟩ =
          .ok (sealed, ⟨rest, payload, ()⟩) ∧
      (⟨sealed.totalLen, sealed.chunkCount, sealed.treeRoot⟩ : SealedInfo) = sampleSealed := by
  obtain ⟨chunks, ⟨totalLen, chunkCount, treeRoot⟩, rest, g, tree, hpieces, hrun, hbuild, hroot, htotal,
    hcount⟩ := sealChunks_of_delivers sampleSha sampleBlake3 sampleRng lawful_sampleCipher
      (rfl : sampleCall.alg.ensureSupported = _) (by decide) (g := ())
      (delivers_listSource (ε := Empty) (utf8 "hi")) (by decide +kernel)
  -- the root over the leaves of the pieces
  have htree : ((sealPieces sampleSha sampleBlake3 sampleCipher sampleCall sampleRng 0 ()
      (pieces sampleCall.chunkSize.toNat (utf8 "hi"))).bind fun r ↦
        (MerkleTree.build sampleBlake3 (r.1.map Chunk.leaf)).map (MerkleTree.root sampleBlake3)) =
          .ok sampleSealed.treeRoot := by decide +kernel
  have hvalue : (MerkleTree.build sampleBlake3 (chunks.map Chunk.leaf)).map
      (MerkleTree.root sampleBlake3) = .ok sampleSealed.treeRoot := by
    rw [hpieces] at htree
    exact htree
  rw [hbuild] at hvalue
  refine ⟨_, rest, _, hrun, ?_⟩
  obtain rfl : totalLen = 2 := UInt64.toNat_inj.mp htotal
  obtain rfl : chunkCount = 1 := UInt32.toNat_inj.mp (hcount.trans (by decide +kernel))
  show SealedInfo.mk 2 1 treeRoot = sampleSealed
  rw [show treeRoot = tree.root sampleBlake3 from hroot, Except.ok.inj hvalue]
  rfl

/-- The law at the sample file: it is packed, and opens. -/
theorem packed_file_opens_sampleRequest :
    ∃ out payload parsed coreHash policyHash desc,
      sampleSession.assemble sampleSha sampleCipher sampleKems sampleRng sampleRequest sampleKeys
        sampleSealed () = .ok (out, ()) ∧
      Opens sampleSha sampleBlake3 sampleCipher sampleKems sampleSession sampleRequest sampleKeys
        (utf8 "hi") payload out parsed coreHash policyHash desc := by
  obtain ⟨out, hout⟩ := exists_sampleAssembled
  obtain ⟨sealed, _, payload, hstream, hsealed⟩ := exists_sampleStream
  have hassemble := hsealed ▸ hout
  obtain ⟨parsed, coreHash, policyHash, desc, hopens⟩ :=
    packed_file_opens lawful_sampleKems lawful_sampleCipher
      (rfl : plan sampleSha sampleRng sampleRequest () = ((sampleSession, _), ()))
      (delivers_listSource (ε := Empty) (utf8 "hi")) hstream hassemble
  exact ⟨out, payload, parsed, coreHash, policyHash, desc, hout, hopens⟩

end OpenCrate.Engine
