import OpenCrate.Crypto.SessionKeys
import OpenCrate.Engine.StampedFile

/-!
# One file, one text

The cipher does not commit to its key: a frame may be made that opens under two keys, to two texts. What commits
to the key is the commitment in a slot, which a reader compares before it unwraps anything. So whoever opens one
file through slots of one commitment unwraps one content key and reads one text, with one pair of shares and, where
a share is that of a claim code, one code; or HMAC, HKDF or BLAKE3 has a collision at what the two readers gave it.

The packer writes one commitment into every slot, so the text of a packed file is the same for all of them.
-/

namespace OpenCrate.Engine

open Crypto Format

/-! ### Readers with shares -/

namespace Found

variable (sha : Sha2) (f : Found)

/-- The wrapping key of the file from both shares. -/
def kek (a : SecretA) (b : SecretB) : Kek :=
  Kdf.deriveKek sha f.header.parsed.header.fileId f.header.parsed.header.orgId a b

/-- The key of the region. -/
def macKey (cek : Cek) : MacKey :=
  Kdf.deriveContentMacKey sha cek f.header.parsed.header.headerSalt f.header.parsed.header.fileId

/-- The key of the frames. -/
def payloadKey (cek : Cek) : PayloadKey :=
  Kdf.derivePayloadKey sha cek f.header.parsed.header.headerSalt f.header.parsed.header.fileId
    f.header.parsed.header.chunkSize f.header.parsed.header.suite.aead

/-- The share that a claim code gives for the file. -/
def shareOfCode (blake3 : List UInt8 → Digest) (code : List UInt8) : SecretB :=
  (Kdf.secretBFromClaim sha f.header.parsed.header.fileId (Kdf.claimSecretFromCode blake3 code)).1

/-- HMAC has one commitment to the core of the file under two wrapping keys. -/
def CommitmentsCollide (kek kek' : Kek) : Prop :=
  sha.CodesCollide kek.expose.toList (Label.slotCommit.asBytes ++ (sha.sha256 f.core).toList) kek'.expose.toList
    (Label.slotCommit.asBytes ++ (sha.sha256 f.core).toList)

/-- HKDF has one wrapping key for two pairs of shares. -/
def SharesCollide (a : SecretA) (b : SecretB) (a' : SecretA) (b' : SecretB) : Prop :=
  let info := Label.kek.asBytes ++ f.header.parsed.header.orgId ++ f.header.parsed.header.fileId.toList
  sha.KeysCollide f.header.parsed.header.fileId.toList (a.expose.toList ++ b.expose.toList) info
    (a'.expose.toList ++ b'.expose.toList) info

/-- HKDF has one share for the secrets of two codes, or BLAKE3 one secret for both. -/
def CodesCollide (blake3 : List UInt8 → Digest) (code code' : List UInt8) : Prop :=
  sha.KeysCollide f.header.parsed.header.fileId.toList (Kdf.claimSecretFromCode blake3 code).expose.toList
      Label.slotBClaim.asBytes (Kdf.claimSecretFromCode blake3 code').expose.toList Label.slotBClaim.asBytes ∨
    Merkle.Collides blake3 [Kdf.claimCodeInput code] [Kdf.claimCodeInput code']

end Found

section Unlocking

variable (sha : Sha2) (blake3 : List UInt8 → Digest) (c : XChaCha) (ed : Ed25519)
  (lookup : List UInt8 → Digest → SignerTrust)

/-- A reader with both shares unwraps the content key through a slot, and goes through the file under it. -/
structure Unlocks (a : SecretA) (b : SecretB) (slot : KnownSlot) (file : List UInt8) (f : Found) (cek : Cek) :
    Prop where
  mem : .known slot ∈ f.header.parsed.header.keySlots
  unwraps : Wrap.unwrapCek sha c (f.kek sha a b) f.header.parsed.header.wrappedCek slot.commitment
    (sha.sha256 f.core) = .ok cek
  finds : Finds sha blake3 c ed lookup (f.macKey sha cek) (f.payloadKey sha cek) file f

end Unlocking

/-! ### A reading is determined by the file and the keys -/

section Unique

variable {sha : Sha2} {blake3 : List UInt8 → Digest} {c : XChaCha} {ed : Ed25519}
  {lookup : List UInt8 → Digest → SignerTrust} {macKey macKey' : MacKey} {key key' : PayloadKey}
  {file : List UInt8} {f f' : Found}

theorem EndsAt.unique {stop : ℕ} {off : Option UInt64} {footer footer' : Option Footer}
    (h : EndsAt file stop off footer) (h' : EndsAt file stop off footer') : footer = footer' := by
  rcases off with - | off
  · exact h.1.trans h'.1.symm
  · obtain ⟨-, read, hread, rfl⟩ := h
    obtain ⟨-, read', hread', rfl⟩ := h'
    rw [Except.ok.inj (hread.symm.trans hread')]

/-- A frame is taken apart in one way. -/
theorem chunk_eq_of_frame_eq {chunk chunk' : Chunk} (hframe : chunk.frame = chunk'.frame) :
    chunk.nonce = chunk'.nonce ∧ chunk.framed = chunk'.framed := by
  rw [Chunk.frame, Chunk.frame] at hframe
  exact prefixFree_vector _ _ _ _ _ hframe

namespace Finds

/-- The header is read without a key. -/
theorem header_eq (h : Finds sha blake3 c ed lookup macKey key file f)
    (h' : Finds sha blake3 c ed lookup macKey' key' file f') : f.header = f'.header ∧ f.core = f'.core := by
  have hheader : f.header = f'.header := Except.ok.inj (h.header.symm.trans h'.header)
  refine ⟨hheader, ?_⟩
  have hcore := h.core
  rw [hheader] at hcore
  exact Except.ok.inj (hcore.symm.trans h'.core)

/-- **Under the same keys a file is read in one way.** -/
theorem unique (h : Finds sha blake3 c ed lookup macKey key file f)
    (h' : Finds sha blake3 c ed lookup macKey key file f') : f = f' := by
  obtain ⟨hheader, hcore⟩ := h.header_eq h'
  obtain ⟨header, core, desc, layout, opened, footer⟩ := f
  obtain ⟨header', core', desc', layout', opened', footer'⟩ := f'
  obtain rfl : header = header' := hheader
  obtain rfl : core = core' := hcore
  obtain ⟨read, hregion, hlayout⟩ := h.region
  obtain ⟨read', hregion', hlayout'⟩ := h'.region
  obtain ⟨hdesc, hread⟩ := Prod.mk.inj (Except.ok.inj (hregion.symm.trans hregion'))
  obtain rfl : desc = desc' := hdesc
  subst hread
  obtain rfl : layout = layout' := Except.ok.inj (hlayout.symm.trans hlayout')
  have hlength : opened.length = opened'.length := h.length.trans h'.length.symm
  obtain rfl : opened = opened' := by
    refine List.ext_getElem hlength fun i hi hi' ↦ ?_
    obtain ⟨⟨start, stop, hspan, hslice⟩, hopen⟩ := h.frames i _ (List.getElem?_eq_getElem hi)
    obtain ⟨⟨start', stop', hspan', hslice'⟩, hopen'⟩ := h'.frames i _ (List.getElem?_eq_getElem hi')
    -- both frames stand at one place, and are opened there under one key
    obtain ⟨hstart, hstop⟩ := Prod.mk.inj (Except.ok.inj (hspan.symm.trans hspan'))
    rw [← hstart, ← hstop] at hslice'
    obtain ⟨hnonce, hframed⟩ := chunk_eq_of_frame_eq (Option.some.inj (hslice.symm.trans hslice'))
    rw [← hnonce, ← hframed] at hopen'
    obtain ⟨htext, hleaf⟩ := Prod.mk.inj (Except.ok.inj (hopen.symm.trans hopen'))
    generalize opened[i] = o at *
    generalize opened'[i] = o' at *
    obtain ⟨⟨nonce, framed, leaf⟩, text⟩ := o
    obtain ⟨⟨nonce', framed', leaf'⟩, text'⟩ := o'
    simp only at hnonce hframed htext hleaf
    rw [hnonce, hframed, htext, hleaf]
  obtain rfl : footer = footer' := h.stops.unique h'.stops
  rfl

end Finds

end Unique

/-! ### A commitment pins the text -/

section Pinned

variable {sha : Sha2} {blake3 : List UInt8 → Digest} {c : XChaCha} {ed : Ed25519}
  {lookup : List UInt8 → Digest → SignerTrust} {a a' : SecretA} {b b' : SecretB} {slot slot' : KnownSlot}
  {file : List UInt8} {f f' : Found} {cek cek' : Cek}

/-- What is unwrapped was committed to. -/
theorem commitment_eq_of_unwrapCek {kek : Kek} {wrapped : List.Vector UInt8 Wrap.wrappedCekLen}
    {commitment core : Digest} (h : Wrap.unwrapCek sha c kek wrapped commitment core = .ok cek) :
    Kdf.slotCommitment sha kek core = commitment := by
  obtain ⟨hcommitment, -⟩ := Except.check_bind_eq_ok_iff.mp h
  exact not_not.mp (Except.refuseIf_eq_ok_iff.mp hcommitment)

/-- The shares of two codes. -/
theorem Found.eq_of_shareOfCode {code code' : List UInt8}
    (h : f.shareOfCode sha blake3 code = f.shareOfCode sha blake3 code') :
    code = code' ∨ f.CodesCollide sha blake3 code code' := by
  rcases Kdf.eq_of_secretBFromClaim h with hsecret | hcol
  · exact (Kdf.eq_of_claimSecretFromCode hsecret).imp_right Or.inr
  · exact Or.inr (Or.inl hcol)

/-- One commitment, one wrapping key, one reading. -/
theorem Unlocks.eq_or_collide (h : Unlocks sha blake3 c ed lookup a b slot file f cek)
    (h' : Unlocks sha blake3 c ed lookup a' b' slot' file f' cek')
    (hcommitment : slot.commitment = slot'.commitment) :
    f.CommitmentsCollide sha (f.kek sha a b) (f.kek sha a' b') ∨
      f = f' ∧ cek = cek' ∧ f.kek sha a b = f.kek sha a' b' := by
  obtain ⟨hheader, hcore⟩ := h.finds.header_eq h'.finds
  have hunwraps' := h'.unwraps
  rw [Found.kek, ← hheader, ← hcore, ← hcommitment] at hunwraps'
  have hcommit := (commitment_eq_of_unwrapCek h.unwraps).trans (commitment_eq_of_unwrapCek hunwraps').symm
  rcases Kdf.eq_of_slotCommitment hcommit with ⟨hkek, -⟩ | hcol
  · have hunwraps := h.unwraps
    rw [hkek] at hunwraps
    obtain rfl : cek = cek' := Except.ok.inj (hunwraps.symm.trans hunwraps')
    have hfinds := h'.finds
    rw [Found.macKey, Found.payloadKey, ← hheader] at hfinds
    exact Or.inr ⟨h.finds.unique hfinds, rfl, hkek⟩
  · exact Or.inl hcol

/-- **A commitment pins the text.** Two readers, whatever their shares are, that open one file through slots with
one commitment go through it in the same way: they find the same header, region, frames, text and footer, under one
content key. They hold the same shares, and if these are of claim codes, of one code. Otherwise a function has a
collision at what they gave it. -/
theorem commitment_pins_text (h : Unlocks sha blake3 c ed lookup a b slot file f cek)
    (h' : Unlocks sha blake3 c ed lookup a' b' slot' file f' cek')
    (hcommitment : slot.commitment = slot'.commitment) :
    f.CommitmentsCollide sha (f.kek sha a b) (f.kek sha a' b') ∨
      f = f' ∧ cek = cek' ∧
        (f.SharesCollide sha a b a' b' ∨ a = a' ∧ b = b' ∧ ∀ code code', b = f.shareOfCode sha blake3 code →
          b' = f.shareOfCode sha blake3 code' → code = code' ∨ f.CodesCollide sha blake3 code code') := by
  refine (h.eq_or_collide h' hcommitment).imp_right fun heq ↦ ?_
  obtain ⟨hfound, hcek, hkek⟩ := heq
  refine ⟨hfound, hcek, ?_⟩
  rcases Kdf.eq_of_deriveKek hkek with ⟨ha, hb⟩ | hcol
  · refine Or.inr ⟨ha, hb, fun code code' hcode hcode' ↦ ?_⟩
    exact Found.eq_of_shareOfCode (hcode.symm.trans (hb.trans hcode'))
  · exact Or.inl hcol

end Pinned

/-! ### Packed files -/

section Packed

variable {γ δ ε σ : Type} {sha : Sha2} {blake3 : List UInt8 → Digest} {c : XChaCha} {k : Kems} {ed : Ed25519}
  {rng : Rng γ} {g g₁ g₂ g₃ : γ} {request : PackRequest}
  {keys : PublicKeys} {s : Session} {p : Plan} {out : Assembled} {source : Source ε σ} {src src' : σ}
  {content payload : List UInt8} {rng' : Rng δ} {d d' : δ} {sealed : Sealed} {signature : Signature}
  {parsed : ParsedHeader}

/-- Every slot of a packed file unwraps its content key, for its shares. -/
theorem unwrapCek_of_assemble (hc : c.Lawful) {info : SealedInfo}
    (hassemble : s.assemble sha c k rng request keys info g₂ = .ok (out, g₃)) :
    ∃ parsed core, Header.decode out.header = .ok parsed ∧
      Header.corePreimage out.header parsed.spans = .ok core ∧ parsed.header.fileId = s.fileId ∧
      parsed.header.headerSalt = s.headerSalt ∧ parsed.header.chunkSize = request.chunkSize ∧
      parsed.header.suite.aead = suite.aead ∧ parsed.header.containerVersion = containerVersion ∧
      ∀ slot, .known slot ∈ parsed.header.keySlots →
        Wrap.unwrapCek sha c (Kdf.deriveKek sha parsed.header.fileId parsed.header.orgId s.secretA s.secretB)
          parsed.header.wrappedCek slot.commitment (sha.sha256 core) = .ok s.cek := by
  obtain ⟨parsed, coreHash, policyHash, privateMeta, wrappedCek, commitment, server, recipient, author,
    hparsed, hcore, -, hheader, ⟨_, _, hwrap⟩, hserver, ⟨_, _, hrecipient⟩, _, _, hauthor⟩ :=
    exists_parsed_of_assemble hassemble
  obtain ⟨_, _, author, -, -, ⟨⟩, hauthor⟩ := exists_of_authorSlot hauthor
  obtain ⟨core, hpreimage, rfl⟩ := Except.map_eq_ok_iff.mp hcore
  refine ⟨parsed, core, hparsed, hpreimage, by rw [hheader]; rfl, by rw [hheader]; rfl, by rw [hheader]; rfl,
    by rw [hheader]; rfl, by rw [hheader]; rfl, fun slot hslot ↦ ?_⟩
  -- all the slots carry one commitment
  have hcommitment : slot.commitment = commitment := by
    have hslots : parsed.header.keySlots = .known server :: recipient ++ [.known author] := by
      rw [hheader]
      rfl
    rw [hslots, List.cons_append, List.mem_cons, List.mem_append, List.mem_singleton] at hslot
    rcases hslot with hslot | hslot | hslot
    · rw [KeySlot.known.inj hslot]
      exact hserver.commitment_eq
    · exact commitment_of_recipientSlots hrecipient hslot
    · rw [KeySlot.known.inj hslot]
      exact hauthor.commitment_eq
  have hkek : Kdf.deriveKek sha parsed.header.fileId parsed.header.orgId s.secretA s.secretB =
      Kdf.deriveKek sha s.fileId request.orgId s.secretA s.secretB := by
    rw [hheader]
    rfl
  have hwrapped : parsed.header.wrappedCek = wrappedCek := by
    rw [hheader]
    rfl
  rw [hkek, hwrapped, hcommitment]
  exact Wrap.unwrapCek_of_wrapCek hc hwrap

/-- **The session opens what it packed**, through every slot. -/
theorem exists_unlocks_of_assemble (lookup : List UInt8 → Digest → SignerTrust) (hc : c.Lawful)
    (hplan : plan sha rng request g = ((s, p), g₁)) (hcontent : Delivers source src content)
    (hstream : sealChunks sha blake3 c ⟨p.payloadKey, p.aead, p.fileId, p.chunkSize⟩ rng' source collect
      ⟨src, [], d⟩ = .ok (sealed, ⟨src', payload, d'⟩))
    (hassemble : s.assemble sha c k rng request keys ⟨sealed.totalLen, sealed.chunkCount, sealed.treeRoot⟩ g₂ =
      .ok (out, g₃))
    (hsigned : Accepted ed out.header signature parsed)
    (hlen : (fileBytes out.header signature out.contentDesc payload []).length < 2 ^ 64) :
    ∃ f, f.content = content ∧ f.header.parsed = parsed ∧ f.footer = none ∧
      Finds sha blake3 c ed lookup (f.macKey sha s.cek) (f.payloadKey sha s.cek)
        (fileBytes out.header signature out.contentDesc payload []) f ∧
      ∀ slot, .known slot ∈ parsed.header.keySlots → Unlocks sha blake3 c ed lookup s.secretA s.secretB slot
        (fileBytes out.header signature out.contentDesc payload []) f s.cek := by
  obtain ⟨-, -, rfl⟩ := plannedAs_of_plan hplan
  obtain ⟨-, -, _, _, _, _, _, _, _, _, _, _, -, -, -, -, -, -, -, -, hfinal, hdesc⟩ := exists_of_assemble hassemble
  obtain ⟨parts, hparts⟩ := Header.exists_encoded hfinal
  have hsize : checkChunkSize request.chunkSize = .ok request.chunkSize := hparts.chunkSize
  obtain ⟨parsed', core, hparsed, hcore, hfileId, hsalt, hchunkSize, haead, hversion, hunwraps⟩ :=
    unwrapCek_of_assemble hc hassemble
  obtain rfl : parsed' = parsed := Except.ok.inj (hparsed.symm.trans hsigned.decoded)
  -- what the header says is what the session has
  let file : EditedFile := ⟨⟨Kdf.derivePayloadKey sha s.cek s.headerSalt s.fileId request.chunkSize suite.aead,
    suite.aead, s.fileId, request.chunkSize⟩, Kdf.deriveContentMacKey sha s.cek s.headerSalt s.fileId,
    containerVersion, sha.sha256 core⟩
  have hof : file.Of parsed' := ⟨hfileId, hchunkSize, haead, hversion⟩
  obtain ⟨chunks, hseals⟩ : ∃ chunks, Copy.SealsWith sha blake3 c file.toStreamCall
      (drafts rng' d (pieces file.chunkSize.toNat content)) (packedCopy sealed out.contentDesc payload) chunks :=
    sealsWith_of_sealChunks hc rfl hsize hcontent hstream _
  have hcloses : Closes (assemble out.header signature ++ out.contentDesc ++ payload).length none none [] :=
    ⟨rfl, rfl⟩
  obtain ⟨f, hfinds, hheader, hbytes, -, htext, -, hfooter⟩ := hseals.finds lookup hc hsigned hof
    (editorReadable_packedCopy sealed out.contentDesc payload) hdesc hcloses hlen
  have hfound : f.core = core := by
    have hpreimage := hfinds.core
    rw [hheader, hbytes] at hpreimage
    exact Except.ok.inj (hpreimage.symm.trans hcore)
  have hkeyed : Finds sha blake3 c ed lookup (f.macKey sha s.cek) (f.payloadKey sha s.cek)
      (fileBytes out.header signature out.contentDesc payload []) f := by
    rw [Found.macKey, Found.payloadKey, hheader, hsalt, hfileId, hchunkSize, haead]
    exact hfinds
  refine ⟨f, ?_, hheader, hfooter, hkeyed, fun slot hslot ↦ ⟨hheader ▸ hslot, ?_, hkeyed⟩⟩
  · rw [htext, Engine.content, map_text_drafts, flatten_pieces]
  · rw [Found.kek, hheader, hfound]
    exact hunwraps slot hslot

/-- **A packed file has one text.** Once its header is signed, the shares of the session open it through every slot,
and find what was packed. Whoever else opens it, with whatever shares and through whatever slot, goes through it in
the same way, under the same content key, or HMAC has a collision. -/
theorem packed_file_has_one_text (lookup : List UInt8 → Digest → SignerTrust) (hc : c.Lawful)
    (hplan : plan sha rng request g = ((s, p), g₁))
    (hcontent : Delivers source src content)
    (hstream : sealChunks sha blake3 c ⟨p.payloadKey, p.aead, p.fileId, p.chunkSize⟩ rng' source collect
      ⟨src, [], d⟩ = .ok (sealed, ⟨src', payload, d'⟩))
    (hassemble : s.assemble sha c k rng request keys ⟨sealed.totalLen, sealed.chunkCount, sealed.treeRoot⟩ g₂ =
      .ok (out, g₃))
    (hsigned : Accepted ed out.header signature parsed)
    (hlen : (fileBytes out.header signature out.contentDesc payload []).length < 2 ^ 64) :
    ∃ f, f.content = content ∧ f.header.parsed = parsed ∧ f.footer = none ∧
      (∀ slot, .known slot ∈ parsed.header.keySlots → Unlocks sha blake3 c ed lookup s.secretA s.secretB slot
        (fileBytes out.header signature out.contentDesc payload []) f s.cek) ∧
      ∀ a b slot f' cek, Unlocks sha blake3 c ed lookup a b slot
          (fileBytes out.header signature out.contentDesc payload []) f' cek →
        f.CommitmentsCollide sha (f.kek sha s.secretA s.secretB) (f.kek sha a b) ∨ f' = f ∧ cek = s.cek := by
  obtain ⟨f, htext, hheader, hfooter, hfinds, hsession⟩ :=
    exists_unlocks_of_assemble lookup hc hplan hcontent hstream hassemble hsigned hlen
  refine ⟨f, htext, hheader, hfooter, hsession, fun a b slot f' cek h ↦ ?_⟩
  -- the header is one, so the slot is one that the session opens, too
  have hslot := h.mem
  rw [(h.finds.header_eq hfinds).1, hheader] at hslot
  rcases (hsession slot hslot).eq_or_collide h rfl with hcol | ⟨rfl, rfl, -⟩
  · exact Or.inl hcol
  · exact Or.inr ⟨rfl, rfl⟩

end Packed

/-! ### The sample file, signed -/

section Sample

/-- The header of the sample file. -/
def sampleHeaderBytes : List UInt8 :=
  ((sampleSession.assemble sampleSha sampleCipher sampleKems sampleRng sampleRequest sampleKeys sampleSealed
    ()).map fun out ↦ out.1.header).toOption.getD []

/-- The signature of its author. -/
def sampleHeaderSignature : Signature :=
  ⟨[0x26, 0x96, 0x0c, 0x2f, 0xc7, 0x65, 0x28, 0x15, 0x1a, 0xfa, 0xe7, 0xb2, 0x41, 0xbb, 0x6b, 0x39,
    0x5b, 0x03, 0xeb, 0x87, 0x04, 0x48, 0xc1, 0xe7, 0x31, 0x00, 0x42, 0xd6, 0x18, 0xa1, 0xfd, 0xdc,
    0x6e, 0x37, 0x5b, 0x8b, 0x97, 0xc5, 0xda, 0xae, 0x22, 0x67, 0x3c, 0xa5, 0x2d, 0x0a, 0x06, 0x88,
    0x78, 0x24, 0xdc, 0x57, 0x89, 0x99, 0x62, 0x1d, 0x64, 0x01, 0x65, 0x9f, 0x1f, 0xac, 0xdd, 0x0b], rfl⟩

/-- Ed25519 as it is at this signature. -/
def sampleHeaderEd25519 : Ed25519 where
  VerifyingKey := Digest
  fromBytes := some
  verifyStrict key message signature := decide (key = sampleAuthorKey ∧
    (headerSigningTranscript sampleHeaderBytes suite).map Transcript.asBytes = .ok message ∧
    signature = sampleHeaderSignature)

/-- The sample file has a signed header and a region of known length. -/
theorem exists_signedSample :
    ∃ out parsed, sampleSession.assemble sampleSha sampleCipher sampleKems sampleRng sampleRequest sampleKeys
        sampleSealed () = .ok (out, ()) ∧
      Accepted sampleHeaderEd25519 out.header sampleHeaderSignature parsed ∧
      out.header.length = 1269 ∧ out.contentDesc.length = 112 ∧
      ∃ server author, .known server ∈ parsed.header.keySlots ∧ .known author ∈ parsed.header.keySlots ∧
        server.kind = .server ∧ author.kind = .authorDevice := by
  obtain ⟨out, hout⟩ := exists_sampleAssembled
  have hheader : sampleHeaderBytes = out.header := by rw [sampleHeaderBytes, hout]; rfl
  have hlen : (sampleSession.assemble sampleSha sampleCipher sampleKems sampleRng sampleRequest sampleKeys
      sampleSealed ()).map (fun out ↦ (out.1.header.length, out.1.contentDesc.length)) = .ok (1269, 112) := by
    decide +kernel
  rw [hout] at hlen
  obtain ⟨hheaderLen, hdescLen⟩ := Prod.mk.inj (Except.ok.inj hlen)
  obtain ⟨parsed, coreHash, policyHash, privateMeta, wrappedCek, commitment, server, recipient, author,
    hparsed, -, -, hparsedHeader, -, hserver, -, _, _, hauthor⟩ := exists_parsed_of_assemble hout
  obtain ⟨_, _, author, -, -, ⟨⟩, hauthor⟩ := exists_of_authorSlot hauthor
  have hslots : parsed.header.keySlots = .known server :: recipient ++ [.known author] := by
    rw [hparsedHeader]
    rfl
  refine ⟨out, parsed, hout, ⟨hheaderLen ▸ by decide, hparsed, ?_, ?_, ?_⟩, hheaderLen, hdescLen, ?_⟩
  · rw [← hheader, show parsed.header.authorKey = sampleAuthorKey by rw [hparsedHeader]; rfl,
      show parsed.header.suite = suite by rw [hparsedHeader]; rfl]
    exact signedBy_iff.mpr (by decide +kernel)
  · rw [show parsed.header.minReaderVersion = supportedReaderVersion by rw [hparsedHeader]; rfl]
  · rw [show parsed.header.containerVersion = containerVersion by rw [hparsedHeader]; rfl]
    decide
  · refine ⟨server, author, ?_, ?_, hserver.kind_eq, hauthor.kind_eq⟩ <;> rw [hslots]
    · exact List.mem_cons_self
    · exact List.mem_append_right _ (List.mem_singleton_self _)

/-- The bytes of the sample file. -/
theorem exists_sampleFile :
    ∃ sealed rest payload out parsed, sealChunks sampleSha sampleBlake3 sampleCipher sampleCall sampleRng
        (listSource : Source Empty _) collect ⟨utf8 "hi", [], ()⟩ = .ok (sealed, ⟨rest, payload, ()⟩) ∧
      sampleSession.assemble sampleSha sampleCipher sampleKems sampleRng sampleRequest sampleKeys
        ⟨sealed.totalLen, sealed.chunkCount, sealed.treeRoot⟩ () = .ok (out, ()) ∧
      Accepted sampleHeaderEd25519 out.header sampleHeaderSignature parsed ∧
      (fileBytes out.header sampleHeaderSignature out.contentDesc payload []).length < 2 ^ 64 ∧
      ∃ server author, .known server ∈ parsed.header.keySlots ∧ .known author ∈ parsed.header.keySlots ∧
        server.kind = .server ∧ author.kind = .authorDevice := by
  obtain ⟨sealed, rest, payload, hstream, hsealed⟩ := exists_sampleStream
  obtain ⟨out, parsed, hout, haccepted, hheader, hdesc, hslots⟩ := exists_signedSample
  refine ⟨sealed, rest, payload, out, parsed, hstream, hsealed ▸ hout, haccepted, ?_, hslots⟩
  let file : EditedFile := ⟨sampleCall, ⟨sampleMacKey⟩, containerVersion, sampleMacKey⟩
  obtain ⟨chunks, hseals⟩ : ∃ chunks, Copy.SealsWith sampleSha sampleBlake3 sampleCipher file.toStreamCall
      (drafts sampleRng () (pieces file.chunkSize.toNat (utf8 "hi"))) (packedCopy sealed [] payload) chunks :=
    sealsWith_of_sealChunks lawful_sampleCipher rfl (by decide) (delivers_listSource (ε := Empty) (utf8 "hi"))
      hstream []
  have hpayload : payload.length = 42 := by
    rw [show payload = (chunks.map Chunk.frame).flatten from hseals.payload, List.length_flatten, List.map_map,
      show List.length ∘ Chunk.frame = fun chunk ↦ chunk.frame.length from rfl,
      hseals.length_frames lawful_sampleCipher, pieces_of_le (by decide)]
    rfl
  rw [fileBytes, List.length_append, List.length_append, List.length_append, length_assemble, hheader, hdesc,
    hpayload]
  decide

/-- The law at the sample file: it is packed, signed, and opens to one text through the server's slot. -/
theorem packed_file_has_one_text_sampleFile :
    ∃ file f server, .known server ∈ f.header.parsed.header.keySlots ∧ server.kind = .server ∧
      Unlocks sampleSha sampleBlake3 sampleCipher sampleHeaderEd25519 (fun _ _ ↦ .unknown) sampleSession.secretA
        sampleSession.secretB server file f sampleSession.cek ∧
      f.content = utf8 "hi" := by
  obtain ⟨sealed, rest, payload, out, parsed, hstream, hout, haccepted, hlen, server, -, hserver, -, hkind, -⟩ :=
    exists_sampleFile
  obtain ⟨f, htext, hparsed, -, hunlocks, -⟩ := packed_file_has_one_text (fun _ _ ↦ .unknown)
    lawful_sampleCipher (rfl : plan sampleSha sampleRng sampleRequest () = ((sampleSession, _), ()))
    (delivers_listSource (ε := Empty) (utf8 "hi")) hstream hout haccepted hlen
  exact ⟨_, f, server, hparsed ▸ hserver, hkind, hunlocks server hserver, htext⟩

/-- Two readers of the sample file with the shares of its session, through the slots of the server and of the
author: these have one commitment. -/
theorem commitment_pins_text_sampleFile :
    ∃ file f server author, server.kind = .server ∧ author.kind = .authorDevice ∧
      Unlocks sampleSha sampleBlake3 sampleCipher sampleHeaderEd25519 (fun _ _ ↦ .unknown) sampleSession.secretA
        sampleSession.secretB server file f sampleSession.cek ∧
      Unlocks sampleSha sampleBlake3 sampleCipher sampleHeaderEd25519 (fun _ _ ↦ .unknown) sampleSession.secretA
        sampleSession.secretB author file f sampleSession.cek ∧
      server.commitment = author.commitment ∧
      (f.CommitmentsCollide sampleSha (f.kek sampleSha sampleSession.secretA sampleSession.secretB)
          (f.kek sampleSha sampleSession.secretA sampleSession.secretB) ∨ f = f) := by
  obtain ⟨sealed, rest, payload, out, parsed, hstream, hout, haccepted, hlen, server, author, hserver, hauthor,
    hserverKind, hauthorKind⟩ := exists_sampleFile
  obtain ⟨f, -, -, -, -, hunlocks⟩ := exists_unlocks_of_assemble (fun _ _ ↦ .unknown)
    lawful_sampleCipher (rfl : plan sampleSha sampleRng sampleRequest () = ((sampleSession, _), ()))
    (delivers_listSource (ε := Empty) (utf8 "hi")) hstream hout haccepted hlen
  have hfirst := hunlocks server hserver
  have hsecond := hunlocks author hauthor
  have hcommitment : server.commitment = author.commitment :=
    (commitment_eq_of_unwrapCek hfirst.unwraps).symm.trans (commitment_eq_of_unwrapCek hsecond.unwraps)
  exact ⟨_, f, server, author, hserverKind, hauthorKind, hfirst, hsecond, hcommitment,
    (commitment_pins_text hfirst hsecond hcommitment).imp_right And.left⟩

end Sample

end OpenCrate.Engine
