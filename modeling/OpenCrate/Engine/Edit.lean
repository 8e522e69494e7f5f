import OpenCrate.Format.Edit
import OpenCrate.Format.HeaderRoundTrip
import OpenCrate.Format.Payload

/-!
# The edit writer

`edit` of `oc-engine`: a revision is assembled from the frames that are kept and the plaintext that is
sealed anew, signed outside the engine, and then authenticated. What the writer produces is what the
reader of the mutable region and the verifier of edits accept, if the author has allowed editing.
-/

namespace OpenCrate.Engine.Edit

open Crypto Format
open Except (refuseIf okOr)

/-! ### The plan of an edit -/

/-- A piece of the new revision. -/
inductive Piece where
  /-- An old frame with this same index. -/
  | keep (frame : List UInt8)
  /-- New plaintext and a fresh nonce seed. -/
  | seal (plaintext : List UInt8) (seed : Nonce)

/-- Inputs needed to assemble a revision. -/
structure EditPlan where
  fileId : List.Vector UInt8 16
  aead : AeadAlg
  chunkSize : UInt32
  containerVersion : UInt16
  /-- The signature binds to the core of the header. -/
  coreHash : Digest
  baseCounter : UInt64
  baseRoot : Digest
  certifiedBy : List UInt8
  journalHead : Option JournalHead
  pieces : List Piece

/-- Unsigned revision. -/
structure Unsigned where
  desc : ContentDesc
  transcript : Transcript
  digest : Digest
  payload : List UInt8
  deriving DecidableEq

/-- Edit-writer failure. -/
inductive EditWriteError where
  | format (e : FormatError)
  | crypto (e : CryptoError)
  | edit (e : EditError)
  | badFrame (index : UInt32)
  | badLayout (index : UInt32)
  deriving DecidableEq

/-! ### The writer -/

/-- The first bytes of a list, apart from the ones behind them. -/
def splitFirstChunk? (n : ℕ) (l : List UInt8) : Option (List.Vector UInt8 n × List UInt8) :=
  (toVector? n (l.take n)).map (·, l.drop n)

/-- The frames written so far. -/
structure Frames where
  leaves : List Leaf := []
  payload : List UInt8 := []
  totalLen : UInt64 := 0

section Writer

variable (sha : Sha2) (blake3 : List UInt8 → Digest) (c : XChaCha)

/-- The frame of a piece with its leaf, and the length of its plaintext. -/
def writePiece (key : PayloadKey) (plan : EditPlan) (index : UInt32) :
    Piece → Except EditWriteError (Leaf × List UInt8 × ℕ)
  | .keep frame => do
    let (nonce, rest) ← okOr (splitFirstChunk? nonceLen frame) (.badFrame index)
    let (ct, tag) ← okOr (splitLastChunk? tagLen rest) (.badFrame index)
    .ok (leafOf blake3 index nonce tag ct, frame, ct.length)
  | .seal plaintext seed => do
    let (nonce, framed, leaf) ← (sealChunkHedged sha blake3 c key plan.aead plan.fileId index seed
      plaintext).mapError .crypto
    .ok (leaf, nonce.toList ++ framed, plaintext.length)

/-- One turn of the loop over the pieces. A piece that is not the last one fills its chunk, and none is
longer. -/
def writeStep (key : PayloadKey) (plan : EditPlan) (out : Frames) (piece : Piece × ℕ) :
    Except EditWriteError Frames := do
  let index ← okOr (UInt32.tryFrom piece.2) (.format .offsetOverflow)
  let (leaf, frame, len) ← writePiece sha blake3 c key plan index piece.1
  refuseIf (piece.2 + 1 ≠ plan.pieces.length ∧ len ≠ plan.chunkSize.toNat ∨
    plan.chunkSize.toNat < len) (.badLayout index)
  let totalLen ← okOr (out.totalLen.checkedAdd (UInt64.ofNat len)) (.format .offsetOverflow)
  .ok ⟨out.leaves ++ [leaf], out.payload ++ frame, totalLen⟩

/-- Assemble an unsigned revision. -/
def prepare (key : PayloadKey) (plan : EditPlan) : Except EditWriteError Unsigned := do
  refuseIf (plan.pieces.length = 0) (.badLayout 0)
  let out ← plan.pieces.zipIdx.foldlM (writeStep sha blake3 c key plan) {}
  let tree ← (MerkleTree.build blake3 out.leaves).mapError .crypto
  let root := tree.root blake3
  let counter ← (nextCounter plan.baseCounter).mapError .edit
  let head := sessionStep sha (sessionStart sha plan.fileId plan.baseCounter plan.baseRoot) 1 root
    out.totalLen
  let chunkCount ← okOr (UInt32.tryFrom plan.pieces.length) (.format .offsetOverflow)
  let desc : ContentDesc := ⟨out.totalLen, chunkCount, root, counter, none,
    some (unsignedEditor head plan.journalHead plan.certifiedBy)⟩
  (desc.checkAgainstChunkSize plan.chunkSize).mapError .format
  let body ← (desc.bodyBytes plan.containerVersion).mapError .format
  let transcript ← (editorTranscript plan.coreHash body).mapError .format
  .ok ⟨desc, transcript, editionDigest sha transcript, out.payload⟩

/-- Insert the signature and authenticate the mutable region: the description, the region, and the
frames. -/
def finish (unsigned : Unsigned) (signature : List.Vector UInt8 Rsa.modulusLen) (macKey : MacKey)
    (fileId : List.Vector UInt8 16) (containerVersion : UInt16) :
    Except EditWriteError (ContentDesc × List UInt8 × List UInt8) := do
  let desc := { unsigned.desc with
    editor := unsigned.desc.editor.map fun e ↦ { e with signature := signature.toList } }
  let area ← (desc.encode sha macKey fileId containerVersion).mapError .format
  .ok (desc, area, unsigned.payload)

end Writer

/-! ### The frames of a revision -/

theorem splitFirstChunk?_eq_some_iff {n : ℕ} {l rest : List UInt8} {first : List.Vector UInt8 n} :
    splitFirstChunk? n l = some (first, rest) ↔ l = first.toList ++ rest := by
  rw [splitFirstChunk?, Option.map_eq_some_iff]
  constructor
  · rintro ⟨v, htake, hpair⟩
    obtain ⟨rfl, rfl⟩ := Prod.mk.inj hpair
    rw [← toVector?_eq_some_iff.mp htake, List.take_append_drop]
  · rintro rfl
    refine ⟨first, toVector?_eq_some_iff.mpr ?_, ?_⟩
    · rw [List.take_left' first.toList_length]
    · rw [List.drop_left' first.toList_length]

section Frames

variable {sha : Sha2} {blake3 : List UInt8 → Digest} {c : XChaCha} {key : PayloadKey}
  {plan : EditPlan}

variable (sha blake3 c key plan) in
/-- The chunk of the new revision that a piece becomes: the old frame as it is, or the plaintext
sealed under the index. -/
def ChunkOf (index : UInt32) : Piece → Chunk → Prop
  | .keep frame, chunk => chunk.frame = frame
  | .seal plaintext seed, chunk =>
    sealChunkHedged sha blake3 c key plan.aead plan.fileId index seed plaintext =
      .ok (chunk.nonce, chunk.framed, chunk.leaf)

variable (blake3) in
/-- The leaf of a chunk is that of its frame. -/
def LeafOf (index : UInt32) (chunk : Chunk) : Prop :=
  ∃ ct tag, chunk.framed = ct ++ tag.toList ∧
    chunk.leaf = leafOf blake3 index chunk.nonce tag ct

theorem LeafOf.length_le {index : UInt32} {chunk : Chunk} (h : LeafOf blake3 index chunk) :
    40 ≤ chunk.frame.length := by
  obtain ⟨ct, tag, hframed, -⟩ := h
  rw [Chunk.frame, hframed, List.length_append, List.length_append, chunk.nonce.toList_length,
    tag.toList_length, Crypto.nonceLen, Crypto.tagLen]
  omega

/-- What the writer of a piece does. -/
theorem exists_chunk_of_writePiece (hc : c.Lawful) {index : UInt32} {piece : Piece} {leaf : Leaf}
    {frame : List UInt8} {len : ℕ}
    (h : writePiece sha blake3 c key plan index piece = .ok (leaf, frame, len)) :
    ∃ chunk : Chunk, chunk.leaf = leaf ∧ chunk.frame = frame ∧ frame.length = 40 + len ∧
      ChunkOf sha blake3 c key plan index piece chunk ∧ LeafOf blake3 index chunk := by
  rcases piece with kept | ⟨plaintext, seed⟩
  · simp only [writePiece, Except.bind_eq_ok_iff, Except.okOr_eq_ok_iff, Prod.exists,
      splitFirstChunk?_eq_some_iff, splitLastChunk?_eq_some_iff, Except.ok.injEq,
      Prod.mk.injEq] at h
    obtain ⟨nonce, rest, hfirst, ct, tag, rfl, rfl, rfl, rfl⟩ := h
    refine ⟨⟨nonce, ct ++ tag.toList, leafOf blake3 index nonce tag ct⟩, rfl, hfirst.symm, ?_,
      hfirst.symm, ct, tag, rfl, rfl⟩
    rw [hfirst, List.length_append, List.length_append, nonce.toList_length, tag.toList_length,
      Crypto.nonceLen, Crypto.tagLen]
    omega
  · simp only [writePiece, Except.bind_eq_ok_iff, Except.mapError_eq_ok_iff, Prod.exists,
      Except.ok.injEq, Prod.mk.injEq] at h
    obtain ⟨nonce, framed, leaf, hseal, rfl, rfl, rfl⟩ := h
    obtain ⟨-, -, -, hleaf⟩ := sealChunkHedged_eq_ok_iff.mp hseal
    refine ⟨⟨nonce, framed, leaf⟩, rfl, rfl, ?_, hseal, hleaf⟩
    rw [List.length_append, nonce.toList_length, length_of_sealChunkHedged hc hseal,
      Crypto.nonceLen, Crypto.tagLen]
    omega

/-- **One turn of the loop** writes the chunk of a piece, which is full unless it is the last one. -/
theorem exists_chunk_of_writeStep (hc : c.Lawful) {out out' : Frames} {piece : Piece} {i : ℕ}
    (h : writeStep sha blake3 c key plan out (piece, i) = .ok out') :
    ∃ chunk : Chunk, out'.leaves = out.leaves ++ [chunk.leaf] ∧
      out'.payload = out.payload ++ chunk.frame ∧
      out'.totalLen.toNat + 40 = out.totalLen.toNat + chunk.frame.length ∧
      chunk.frame.length ≤ 40 + plan.chunkSize.toNat ∧
      (i + 1 ≠ plan.pieces.length → chunk.frame.length = 40 + plan.chunkSize.toNat) ∧
      ChunkOf sha blake3 c key plan (UInt32.ofNat i) piece chunk ∧
      LeafOf blake3 (UInt32.ofNat i) chunk := by
  simp only [writeStep, Except.bind_eq_ok_iff, Except.okOr_eq_ok_iff, Except.refuseIf_eq_ok_iff,
    Prod.exists, UInt64.checkedAdd, UInt64.tryFrom_eq_some_iff, UInt32.tryFrom_eq_some_iff,
    Except.ok.injEq] at h
  obtain ⟨index, rfl, leaf, frame, len, hpiece, -, hfits, totalLen, htotal, rfl⟩ := h
  obtain ⟨hfull, hle⟩ := not_or.mp hfits
  rw [not_lt] at hle
  obtain ⟨chunk, rfl, rfl, hlen, hof, hleaf⟩ := exists_chunk_of_writePiece hc hpiece
  rw [UInt32.ofNat_toNat]
  have hlen64 : (UInt64.ofNat len).toNat = len :=
    UInt64.toNat_ofNat_of_lt' (lt_of_le_of_lt hle (lt_trans plan.chunkSize.toNat_lt (by decide)))
  rw [hlen64] at htotal
  refine ⟨chunk, rfl, rfl, ?_, by omega, ?_, hof, hleaf⟩
  · show totalLen.toNat + 40 = _
    omega
  · intro hlast
    rw [hlen, not_not.mp fun hne ↦ hfull ⟨hlast, hne⟩]

/-- **A run of the loop** writes one chunk for each piece. -/
theorem exists_chunks_of_foldlM (hc : c.Lawful) {pieces : List Piece} {i : ℕ} {out out' : Frames}
    (h : (pieces.zipIdx i).foldlM (writeStep sha blake3 c key plan) out = .ok out') :
    ∃ chunks : List Chunk, chunks.length = pieces.length ∧
      out'.leaves = out.leaves ++ chunks.map Chunk.leaf ∧
      out'.payload = out.payload ++ (chunks.map Chunk.frame).flatten ∧
      out'.totalLen.toNat + 40 * chunks.length =
        out.totalLen.toNat + (chunks.map Chunk.frame).flatten.length ∧
      ∀ j piece chunk, pieces[j]? = some piece → chunks[j]? = some chunk →
        chunk.frame.length ≤ 40 + plan.chunkSize.toNat ∧
        (i + j + 1 ≠ plan.pieces.length → chunk.frame.length = 40 + plan.chunkSize.toNat) ∧
        ChunkOf sha blake3 c key plan (UInt32.ofNat (i + j)) piece chunk ∧
        LeafOf blake3 (UInt32.ofNat (i + j)) chunk := by
  -- by induction on the pieces; each step appends one chunk, so the index of the rest moves by one
  induction pieces generalizing i out with
  | nil =>
    obtain rfl := Except.ok.inj h
    exact ⟨[], rfl, by simp, by simp, by simp, by simp⟩
  | cons piece pieces ih =>
    rw [List.zipIdx_cons, List.foldlM_cons] at h
    obtain ⟨out₁, hstep, hrest⟩ := Except.bind_eq_ok_iff.mp h
    obtain ⟨chunk, hleaves₁, hpayload₁, htotal₁, hchunk⟩ := exists_chunk_of_writeStep hc hstep
    obtain ⟨chunks, hlen, hleaves, hpayload, htotal, hchunks⟩ := ih hrest
    refine ⟨chunk :: chunks, by rw [List.length_cons, List.length_cons, hlen], ?_, ?_, ?_, ?_⟩
    · rw [hleaves, hleaves₁, List.append_assoc, List.map_cons, List.singleton_append]
    · rw [hpayload, hpayload₁, List.append_assoc, List.map_cons, List.flatten_cons]
    · rw [List.length_cons, List.map_cons, List.flatten_cons, List.length_append]
      omega
    · intro j piece' chunk' hpiece' hchunk'
      rcases j with - | j
      · obtain rfl := Option.some_inj.mp hpiece'
        obtain rfl := Option.some_inj.mp hchunk'
        exact hchunk
      · rw [List.getElem?_cons_succ] at hpiece' hchunk'
        have hnext := hchunks j piece' chunk' hpiece' hchunk'
        rwa [Nat.add_right_comm i 1 j] at hnext

/-- The chunks of a revision: one for each piece, tiling the layout of the description, whose root is
that of the tree over their leaves. -/
structure Revision (sha : Sha2) (blake3 : List UInt8 → Digest) (c : XChaCha) (key : PayloadKey)
    (plan : EditPlan) (desc : ContentDesc) (chunks : List Chunk) : Prop where
  length : chunks.length = plan.pieces.length
  chunkOf : ∀ i piece, plan.pieces[i]? = some piece → ∃ chunk, chunks[i]? = some chunk ∧
    ChunkOf sha blake3 c key plan (UInt32.ofNat i) piece chunk ∧
    LeafOf blake3 (UInt32.ofNat i) chunk
  tiles : ∀ off, ∃ layout, Layout.new plan.chunkSize desc.chunkCount desc.totalLen off = .ok layout ∧
    layout.Tiles (chunks.map Chunk.frame)
  root : ∃ tree, MerkleTree.build blake3 (chunks.map Chunk.leaf) = .ok tree ∧
    desc.treeRoot = tree.root blake3

/-- **What the first half of the writer does.** -/
theorem exists_of_prepare (hc : c.Lawful) {u : Unsigned}
    (h : prepare sha blake3 c key plan = .ok u) :
    (∃ head body, u.desc.editor = some (unsignedEditor head plan.journalHead plan.certifiedBy) ∧
        u.desc.bodyBytes plan.containerVersion = .ok body ∧
        editorTranscript plan.coreHash body = .ok u.transcript) ∧
      u.desc.versionCounter.toNat = plan.baseCounter.toNat + 1 ∧
      u.digest = editionDigest sha u.transcript ∧
      ∃ chunks, u.payload = (chunks.map Chunk.frame).flatten ∧
        Revision sha blake3 c key plan u.desc chunks := by
  simp only [prepare, Except.bind_eq_ok_iff, Except.mapError_eq_ok_iff, Except.okOr_eq_ok_iff,
    Except.refuseIf_eq_ok_iff, nextCounter_eq_ok_iff, UInt32.tryFrom_eq_some_iff,
    Except.ok.injEq] at h
  obtain ⟨-, hne, out, hout, tree, htree, counter, hcounter, count, hcount, ⟨⟩, hcheck, body, hbody,
    transcript, htranscript, rfl⟩ := h
  obtain ⟨chunks, hlen, hleaves, hpayload, htotal, hchunks⟩ := exists_chunks_of_foldlM hc hout
  rw [List.nil_append] at hleaves hpayload
  have hframes : ∀ j f, (chunks.map Chunk.frame)[j]? = some f →
      (40 ≤ f.length ∧ f.length ≤ plan.chunkSize.toNat + 40) ∧
        (j + 1 < plan.pieces.length → f.length = plan.chunkSize.toNat + 40) := by
    intro j f hf
    rw [List.getElem?_map, Option.map_eq_some_iff] at hf
    obtain ⟨chunk, hchunk, rfl⟩ := hf
    obtain ⟨hj, -⟩ := List.getElem?_eq_some_iff.mp hchunk
    obtain ⟨hle, hfull, -, hleaf⟩ :=
      hchunks j _ chunk (List.getElem?_eq_getElem (by omega : j < plan.pieces.length)) hchunk
    have hmin := hleaf.length_le
    exact ⟨⟨hmin, by omega⟩, fun hlt ↦ by rw [hfull (by omega)]; omega⟩
  refine ⟨⟨_, body, rfl, hbody, htranscript⟩, hcounter, rfl, chunks, hpayload, hlen, ?_, ?_, ?_⟩
  · intro i piece hpiece
    obtain ⟨hi, -⟩ := List.getElem?_eq_some_iff.mp hpiece
    obtain ⟨chunk, hchunk⟩ : ∃ chunk, chunks[i]? = some chunk :=
      ⟨_, List.getElem?_eq_getElem (by omega)⟩
    have hof := (hchunks i piece chunk hpiece hchunk).2.2
    rw [Nat.zero_add] at hof
    exact ⟨chunk, hchunk, hof⟩
  · intro off
    obtain ⟨_, hnew, -⟩ := Except.map_eq_ok_iff.mp hcheck
    obtain ⟨hsize, hpieces, hvalid, -⟩ := Layout.new_eq_ok_iff.mp hnew
    refine ⟨_, Layout.new_eq_ok_iff.mpr ⟨hsize, hpieces, hvalid, rfl⟩, Layout.Tiles.of_full ?_ ?_ ?_ ?_⟩
    · rw [List.length_map, hlen]
      exact hcount.symm
    · rw [List.length_map]
      exact htotal.trans (Nat.zero_add _)
    · intro j f hj hf
      rw [List.length_map, hlen] at hj
      exact (hframes j f hf).2 hj
    · intro f hf
      obtain ⟨j, hj⟩ := List.mem_iff_getElem?.mp hf
      exact (hframes j f hj).1
  · rw [← hleaves]
    exact ⟨tree, htree, rfl⟩

end Frames

/-! ### What is written is accepted -/

section Accepted

variable {sha : Sha2} {blake3 : List UInt8 → Digest} {c : XChaCha} {ed : Ed25519}
  {key : PayloadKey} {plan : EditPlan} {u : Unsigned} {header : Header} {now : Option Int64}
  {cert : EditorCert} {signature : List.Vector UInt8 Rsa.modulusLen} {macKey : MacKey}
  {fileId : List.Vector UInt8 16} {version : UInt16} {desc : ContentDesc}
  {area payload : List UInt8}

/-- The transcript of the draft is the transcript of the signed body. -/
theorem editorTranscript_of_signed {d : ContentDesc} {e : EditorSignature} {v v' : UInt16}
    {body body' s : List UInt8} (coreHash : Digest) (hd : d.editor = some e)
    (hbody : d.encodeBody v = .ok body)
    (hbody' : { d with editor := some { e with signature := s } }.encodeBody v' = .ok body') :
    editorTranscript coreHash body' = editorTranscript coreHash body := by
  rw [editorTranscript, editorTranscript, bodyWithoutSignature_encodeBody hd hbody,
    bodyWithoutSignature_encodeBody rfl hbody']
  rfl

/-- **What both halves of the writer do.** The region is read back with the draft's transcript, and
carries the certificate and the signature. -/
theorem exists_of_finish (hc : c.Lawful) (hprepare : prepare sha blake3 c key plan = .ok u)
    (hfinish : finish sha u signature macKey fileId version = .ok (desc, area, payload)) :
    (∃ body, ContentDesc.decodeVerifiedWithBody sha (area ++ payload) macKey fileId version =
        .ok (desc, body, area.length) ∧ editorTranscript plan.coreHash body = .ok u.transcript) ∧
      (∃ editor, desc.editor = some editor ∧ editor.certifiedBy = plan.certifiedBy ∧
        editor.signature = signature.toList) ∧
      firstEditingVersion ≤ version ∧
      desc.versionCounter.toNat = plan.baseCounter.toNat + 1 ∧ desc.versionCounter ≠ 0 ∧
      u.digest = editionDigest sha u.transcript ∧
      ∃ chunks, payload = (chunks.map Chunk.frame).flatten ∧
        Revision sha blake3 c key plan desc chunks := by
  obtain ⟨⟨head, draft, heditor, hdraft, htranscript⟩, hcounter, hdigest, chunks, hpayload, hrevision⟩ :=
    exists_of_prepare hc hprepare
  simp only [finish, Except.bind_eq_ok_iff, Except.mapError_eq_ok_iff, Except.ok.injEq,
    Prod.mk.injEq, heditor, Option.map_some] at hfinish
  obtain ⟨area', harea, rfl, rfl, rfl⟩ := hfinish
  obtain ⟨body, hbody, hread⟩ := (ContentDesc.decodeVerifiedWithBody_encode_iff harea u.payload).mpr
    fun e he ↦ by rw [← Option.some_inj.mp he]; rfl
  obtain ⟨hediting, -⟩ := ContentDesc.encodeBody_eq_ok_iff.mp hbody
  have hmoved : u.desc.versionCounter ≠ 0 := by
    intro hzero
    rw [hzero] at hcounter
    exact absurd hcounter (by simp)
  have htext := (editorTranscript_of_signed plan.coreHash heditor hdraft hbody).trans htranscript
  exact ⟨⟨body, hread, htext⟩, ⟨_, rfl, rfl, rfl⟩, hediting rfl, hcounter, hmoved, hdigest, chunks,
    hpayload, hrevision.length, hrevision.chunkOf, hrevision.tiles, hrevision.root⟩

/-- **What the edit writer produces the edit verifier accepts**, if the author has allowed editing, and
refuses for that reason otherwise. -/
theorem written_edition_accepted (hc : c.Lawful)
    (hprepare : prepare sha blake3 c key plan = .ok u)
    (hcert : EditorCert.verifyFor ed plan.certifiedBy header now = .ok cert)
    (hsigned : Rsa.verifyPssSha256 sha cert.editorKey u.transcript.asBytes signature.toList = .ok ())
    (hfinish : finish sha u signature macKey fileId version = .ok (desc, area, payload))
    (hversion : header.containerVersion = version) :
    ∃ body,
      ContentDesc.decodeVerifiedWithBody sha (area ++ payload) macKey fileId version =
        .ok (desc, body, area.length) ∧
      editorTranscript plan.coreHash body = .ok u.transcript ∧
      (header.policy.actions.get? .edit ≠ none → ∃ edition,
        verifyEdition sha ed header plan.coreHash desc body now = .ok (some edition) ∧
          edition.counter.toNat = plan.baseCounter.toNat + 1 ∧ edition.digest = u.digest ∧
          edition.cert = cert) ∧
      (header.policy.actions.get? .edit = none →
        verifyEdition sha ed header plan.coreHash desc body now = .error .editNotAllowed) ∧
      ∃ chunks, payload = (chunks.map Chunk.frame).flatten ∧
        Revision sha blake3 c key plan desc chunks := by
  obtain ⟨⟨body, hread, htext⟩, ⟨editor, heditor, hcertified, hsignature⟩, hediting, hcounter, hmoved,
    hdigest, hchunks⟩ := exists_of_finish hc hprepare hfinish
  rw [← hversion] at hediting
  refine ⟨body, hread, htext, ?_, ?_, hchunks⟩
  · intro hallowed
    refine ⟨_, verifyEdition_eq_ok_some_iff.mpr ⟨hmoved, hediting, hallowed, editor, cert,
      u.transcript, heditor, ?_, htext, ?_, rfl⟩, hcounter, hdigest.symm, rfl⟩
    · rw [hcertified]
      exact hcert
    · rw [hsignature]
      exact hsigned
  -- without the right to edit even a good signature is refused
  · intro hdenied
    exact verifyEdition_of_not_allowed (Option.isSome_iff_exists.mpr ⟨editor, heditor⟩) hmoved
      hediting hdenied

/-- The modulus of the repository's test key. -/
def testKeyA : List.Vector UInt8 Rsa.modulusLen :=
  ⟨[0xa5, 0xb7, 0x8b, 0x91, 0x0c, 0xcd, 0xa8, 0x2a, 0x20, 0xe0, 0xc9, 0x76, 0xe4, 0x15, 0x6f, 0x9c,
    0x49, 0x14, 0xc3, 0x7d, 0xda, 0xa3, 0x92, 0xaa, 0xd6, 0x8c, 0x83, 0xe7, 0x71, 0xde, 0x77, 0x45,
    0x23, 0xd1, 0x18, 0x16, 0x3e, 0x5e, 0xd2, 0x37, 0x3f, 0xf0, 0xba, 0xdf, 0xaf, 0xb0, 0xae, 0x26,
    0x86, 0xae, 0xfa, 0xa1, 0x6b, 0x7f, 0x90, 0x5b, 0x90, 0x4f, 0xbd, 0x3b, 0xbb, 0x4f, 0xfb, 0x6c,
    0x07, 0x94, 0x9e, 0xcb, 0x7d, 0xc9, 0xa9, 0x63, 0xfe, 0x1b, 0xf0, 0x33, 0x1e, 0xb1, 0x43, 0x3d,
    0x53, 0x1d, 0x4e, 0x74, 0x20, 0x3b, 0x2f, 0xaa, 0xf7, 0x7b, 0xf2, 0x31, 0x06, 0x14, 0x28, 0x35,
    0x94, 0x29, 0x82, 0x33, 0x24, 0xf1, 0xd0, 0x2d, 0x27, 0x08, 0x02, 0xfb, 0xc0, 0x80, 0x5c, 0xb9,
    0xae, 0x3e, 0x5b, 0x5c, 0xfe, 0xee, 0x5f, 0x2e, 0x64, 0x33, 0xde, 0xf5, 0xed, 0xd0, 0x9d, 0x18,
    0xc4, 0x29, 0x95, 0x22, 0xc8, 0x15, 0xfe, 0x3d, 0x6f, 0xe4, 0x56, 0x0b, 0x71, 0x57, 0x43, 0x62,
    0xd3, 0xe9, 0x99, 0xf6, 0x55, 0x87, 0x08, 0x0d, 0x91, 0x02, 0x49, 0x13, 0x74, 0x57, 0xdc, 0x1a,
    0x8e, 0x75, 0x2d, 0x1d, 0xa1, 0x9c, 0x70, 0xab, 0xb3, 0x56, 0x0d, 0xe6, 0x80, 0x8d, 0x37, 0xe2,
    0x0c, 0xb5, 0x22, 0x68, 0x54, 0xd8, 0xaa, 0x81, 0xf3, 0x51, 0xf3, 0x34, 0x85, 0x4a, 0xac, 0xdc,
    0x7c, 0x1d, 0x8b, 0x7c, 0x94, 0xc0, 0xc1, 0xad, 0xe0, 0x20, 0x94, 0x1a, 0x9c, 0xfb, 0x62, 0x44,
    0x9e, 0x06, 0x5a, 0xb0, 0x29, 0xf0, 0x54, 0x75, 0xe8, 0x2e, 0x05, 0x8c, 0x4f, 0x98, 0xd7, 0x79,
    0x58, 0xf0, 0x82, 0x30, 0x5a, 0xe0, 0x43, 0xc7, 0x2c, 0x8d, 0x4d, 0x1e, 0x09, 0x86, 0x82, 0x93,
    0x76, 0xd3, 0x3d, 0xe0, 0x0d, 0xb3, 0x3e, 0x08, 0x2c, 0x42, 0x35, 0x84, 0x8f, 0x84, 0x42, 0x53],
    by decide +kernel⟩

/-- A certificate of the sample author for the test key. -/
def sampleCert : EditorCert where
  fileId := List.Vector.replicate 16 0
  device := List.Vector.replicate 32 0xde
  editorKey := testKeyA
  notAfter := 0x7fffffffffffffff
  issuer := sampleAuthorKey
  signature :=
    ⟨[0x87, 0x53, 0x91, 0xa7, 0x29, 0x8c, 0xab, 0x55, 0x56, 0xbc, 0x2f, 0x8a, 0x50, 0xc4, 0xc8, 0xd7,
      0x3e, 0x71, 0x74, 0x2f, 0x9f, 0x8b, 0xab, 0x21, 0x57, 0x2c, 0x59, 0x8b, 0x6a, 0xc1, 0x4f, 0xf8,
      0x36, 0x39, 0x81, 0x9c, 0x03, 0x78, 0x5b, 0x86, 0x0b, 0xd0, 0x27, 0x5b, 0xd7, 0xc8, 0x75, 0xf5,
      0x5c, 0x45, 0xe4, 0x47, 0x5b, 0xdd, 0xe2, 0x21, 0xd6, 0xc4, 0xaf, 0x38, 0x42, 0x6b, 0x4b, 0x07],
      rfl⟩

/-- The bytes of the sample certificate. -/
def sampleCertBytes : List UInt8 := sampleCert.encode.toOption.getD []

/-- The page of the file that is edited, as it lies there: its text is the key stream itself. -/
def keptFrame : List UInt8 :=
  List.replicate 24 0x17 ++ (List.replicate 4096 0x00 ++
    [0x63, 0x90, 0x59, 0x53, 0xa6, 0x55, 0x4a, 0x9b, 0xe1, 0xa4, 0x0c, 0xb0, 0xa1, 0x0f, 0x80, 0x06])

/-- The root of the tree over this page and the line behind it that is written anew. -/
def sampleBaseRoot : Digest :=
  ⟨[0xcd, 0xfd, 0xe2, 0xa3, 0x81, 0x4e, 0xbd, 0x54, 0x94, 0x9c, 0xa7, 0x1a, 0x7e, 0xd9, 0xac, 0xdb,
    0x48, 0xb8, 0xd1, 0xc4, 0x34, 0x1e, 0xbe, 0x91, 0xa8, 0xa0, 0x52, 0xe6, 0x99, 0x47, 0x94, 0x7d], rfl⟩

/-- A first edit of that file: the page is kept, and its last line is written anew. -/
def samplePlan : EditPlan where
  fileId := List.Vector.replicate 16 0
  aead := .xChaCha20Poly1305
  chunkSize := 4096
  containerVersion := 5
  coreHash := List.Vector.replicate 32 0x9c
  baseCounter := 0
  baseRoot := sampleBaseRoot
  certifiedBy := sampleCertBytes
  journalHead := none
  pieces := [.keep keptFrame, .seal (utf8 "The final text.") (List.Vector.replicate 24 0)]

/-- The nonce of the new line, for the zero seed. -/
def sampleNonce : List UInt8 :=
  [0xba, 0x89, 0x07, 0xbd, 0xb2, 0x3e, 0xe2, 0xfa, 0x5f, 0xbb, 0x2b, 0x98, 0xc9, 0x4e, 0x18, 0x65,
    0x9d, 0x43, 0x67, 0xc0, 0x6f, 0x6e, 0x61, 0xb1]

/-- The leaves of the page and of the new line, the node over them, and the root. -/
def keptLeaf : Digest :=
  ⟨[0xc0, 0xa5, 0x3e, 0x35, 0xb7, 0x91, 0x00, 0x12, 0x5a, 0xd9, 0x9a, 0x5d, 0x98, 0xe9, 0x70, 0xf2,
    0x28, 0xd7, 0x4f, 0xb7, 0xba, 0xef, 0x3e, 0x84, 0xad, 0x97, 0x04, 0xe9, 0x8d, 0x6d, 0xcd, 0x57], rfl⟩

def sampleLeaf : Digest :=
  ⟨[0x62, 0x35, 0x15, 0xdd, 0x18, 0x0a, 0x09, 0x61, 0xd7, 0xd1, 0xd7, 0x9e, 0x68, 0x18, 0x17, 0xea,
    0x6e, 0xfe, 0x54, 0x56, 0xed, 0x01, 0xd8, 0x32, 0x80, 0x1b, 0x20, 0xda, 0x8e, 0x68, 0x65, 0x04], rfl⟩

def sampleNode : Digest :=
  ⟨[0x26, 0xae, 0x05, 0xf1, 0x64, 0xfc, 0xbe, 0x21, 0xf0, 0x82, 0x97, 0x35, 0xb1, 0x3d, 0xc9, 0x02,
    0x45, 0x9a, 0x70, 0xb4, 0xf5, 0x00, 0x6e, 0x68, 0x86, 0x0e, 0xce, 0x97, 0x62, 0x49, 0x4d, 0x7c], rfl⟩

def sampleRoot : Digest :=
  ⟨[0x84, 0x86, 0xf2, 0xc9, 0xaf, 0x92, 0xe8, 0xc0, 0x51, 0x35, 0x28, 0x97, 0xbc, 0x0f, 0xe9, 0x36,
    0xc8, 0x9d, 0x0b, 0x2e, 0x66, 0xb1, 0x42, 0x46, 0x7b, 0xf4, 0x3a, 0x4f, 0x78, 0xa8, 0x82, 0x8a], rfl⟩

/-- SHA-256 of the base of the sample edit. -/
def sampleSessionStart : Digest :=
  ⟨[0xb8, 0x34, 0x92, 0x66, 0x97, 0x9a, 0x47, 0x52, 0x73, 0x12, 0x4c, 0xb0, 0x07, 0xe6, 0xc7, 0xca,
    0xad, 0xb8, 0x20, 0x69, 0x24, 0xf6, 0x13, 0x7c, 0xe3, 0x79, 0x9f, 0x62, 0x72, 0x21, 0x46, 0x32], rfl⟩

/-- SHA-256 of its only save. -/
def sampleSessionHead : Digest :=
  ⟨[0x3d, 0x9b, 0x33, 0xf9, 0x7e, 0x0c, 0xe6, 0x25, 0x4f, 0xfb, 0xb5, 0x9a, 0xf3, 0xd4, 0x56, 0xea,
    0x2e, 0x3a, 0x48, 0x6d, 0xfa, 0x61, 0x27, 0xe0, 0xc9, 0xc0, 0x45, 0x54, 0x89, 0x54, 0x47, 0x1a], rfl⟩

/-- SHA-256 of the transcript of the sample edit. -/
def sampleEditionDigest : Digest :=
  ⟨[0x0c, 0x2f, 0x30, 0x01, 0x2e, 0x6f, 0xf8, 0x43, 0x81, 0x0a, 0x85, 0x93, 0x9c, 0x3f, 0x82, 0x70,
    0x8e, 0x84, 0xb8, 0xc5, 0xb0, 0xd4, 0x07, 0x9f, 0xf3, 0x8c, 0x5a, 0x05, 0x2c, 0x87, 0x06, 0xe0], rfl⟩

/-- SHA-256 of the salted transcript of the sample edit. -/
def samplePssDigest : Digest :=
  ⟨[0x5b, 0xb7, 0xac, 0x85, 0x19, 0xf9, 0x28, 0xff, 0x2e, 0xbd, 0xcb, 0xac, 0x0b, 0x18, 0x88, 0x15,
    0xb0, 0x2d, 0x36, 0x31, 0x53, 0xac, 0x29, 0x8b, 0x90, 0x0b, 0x8a, 0x41, 0xbc, 0x68, 0x46, 0x37], rfl⟩

/-- SHA-256 of that digest with the counters of the mask. -/
def samplePssMask : List UInt8 :=
  [0x9f, 0x22, 0x4b, 0x29, 0xb4, 0x1f, 0x9c, 0x58, 0x73, 0x9f, 0x2c, 0x8a, 0x1d, 0xda, 0x06, 0x27,
    0x84, 0x14, 0x54, 0xd5, 0x5f, 0x4d, 0x4b, 0xe4, 0xd6, 0xe2, 0xaf, 0x43, 0xee, 0xec, 0x13, 0xb3,
    0xd2, 0x8b, 0x29, 0x70, 0x8d, 0xbe, 0x99, 0xc5, 0x05, 0x90, 0xc1, 0xd4, 0xc5, 0x5d, 0x5f, 0x3d,
    0xef, 0x46, 0x55, 0x40, 0x99, 0x4d, 0xcd, 0xb1, 0x0a, 0x49, 0xa8, 0xb2, 0x80, 0x71, 0x54, 0x99,
    0x62, 0x55, 0x39, 0x2f, 0xd3, 0x0d, 0x4d, 0x84, 0xf4, 0x07, 0x4f, 0x52, 0xe5, 0x87, 0x44, 0x79,
    0x26, 0x9c, 0x1b, 0xde, 0xa7, 0x2d, 0x20, 0x39, 0x2f, 0x6a, 0x59, 0x85, 0x66, 0x44, 0xdc, 0xbc,
    0x2c, 0x00, 0x76, 0xc2, 0x9e, 0x9a, 0x75, 0x79, 0x09, 0x1e, 0x01, 0x33, 0x92, 0xbd, 0x3c, 0xf8,
    0x27, 0x14, 0xed, 0x18, 0xc1, 0x2d, 0xf6, 0x73, 0xc2, 0xfc, 0xc2, 0x82, 0x3d, 0x94, 0x3e, 0x49,
    0x34, 0x47, 0x0f, 0xda, 0xc6, 0xb6, 0x18, 0xe8, 0x9c, 0xd3, 0x49, 0xe2, 0xba, 0x61, 0x29, 0x61,
    0x79, 0xf4, 0xf5, 0xe5, 0x68, 0x14, 0x56, 0x58, 0xa4, 0xbe, 0xed, 0x1c, 0x85, 0x14, 0xf3, 0x6d,
    0xaa, 0x23, 0xc5, 0xf6, 0x54, 0xe8, 0x12, 0xb6, 0x6f, 0x88, 0x37, 0x43, 0xc5, 0x4a, 0xf5, 0x25,
    0x52, 0xb6, 0x7f, 0x5d, 0x8c, 0x31, 0xab, 0xa7, 0x96, 0xab, 0xa7, 0x5e, 0xb7, 0x59, 0x01, 0x03,
    0x4f, 0x0b, 0xb0, 0xb0, 0x08, 0xb9, 0xd0, 0xc6, 0x8b, 0x79, 0x23, 0x51, 0x81, 0x16, 0xda, 0x46,
    0x0b, 0x57, 0x20, 0x63, 0x82, 0x1a, 0x2e, 0x7e, 0x1e, 0x34, 0xc4, 0x23, 0x55, 0x07, 0x19, 0x6d]

/-- HMAC-SHA256 of the signed sample edit under the zero key. -/
def sampleAreaCode : Digest :=
  ⟨[0xe2, 0x1c, 0x8e, 0x8d, 0x47, 0x05, 0x7b, 0x21, 0x89, 0x29, 0x84, 0x6a, 0xd6, 0x3d, 0xac, 0x78,
    0xe9, 0xf4, 0x79, 0xb2, 0x79, 0xbb, 0xe8, 0x90, 0x49, 0xda, 0xab, 0x72, 0xf2, 0xb7, 0x64, 0xc6], rfl⟩

/-- SHA-256, HMAC and HKDF as they are at the inputs of the sample edit, which have different
lengths except for the blocks of the mask. -/
def sampleEditSha : Sha2 where
  sha256 input :=
    match input.length with
    | 75 => sampleSessionStart
    | 99 => sampleSessionHead
    | 643 => sampleEditionDigest
    | 72 => samplePssDigest
    | _ => List.Vector.ofFn fun i ↦
      samplePssMask.getD (32 * (input.getLastD 0).toNat + i.val) 0
  hmac _ _ := sampleAreaCode
  hkdf _ _ _ _ := List.Vector.ofFn fun i ↦ sampleNonce.getD i.val 0

/-- BLAKE3 as it is at the leaves of the new revision, where the position stands behind the label, and at the
tree over them. -/
def sampleEditBlake3 (input : List UInt8) : Digest :=
  match input.head? with
  | some 0x00 => if input.getD 14 0 = 0 then keptLeaf else sampleLeaf
  | some 0x01 => sampleNode
  | _ => sampleRoot

/-- Ed25519 as it is at the signature of the sample certificate. -/
def sampleCertEd25519 : Ed25519 where
  VerifyingKey := Digest
  fromBytes := some
  verifyStrict key message signature := decide (key = sampleAuthorKey ∧
    sampleCert.signedBody.map (fun body ↦ (EditorCert.transcript body).asBytes) = .ok message ∧
    signature = sampleCert.signature)

/-- RSA-PSS signature of the sample edit under the test key. -/
def sampleEditSignature : List.Vector UInt8 Rsa.modulusLen :=
  ⟨[0xa4, 0x72, 0x64, 0xb3, 0xcc, 0x07, 0x0c, 0xdf, 0xd4, 0xb1, 0xf7, 0x11, 0xed, 0x80, 0x94, 0xcf,
    0xc6, 0xe4, 0x55, 0xbe, 0x23, 0x09, 0x7f, 0x76, 0x5f, 0xc9, 0xdc, 0x54, 0xee, 0xbf, 0xad, 0xab,
    0xd2, 0x2a, 0x4c, 0xab, 0x28, 0xcb, 0x8d, 0x36, 0x8d, 0x1b, 0xb6, 0x2a, 0x57, 0x99, 0xe9, 0x53,
    0x18, 0x45, 0x92, 0x89, 0x48, 0x8f, 0x2d, 0xba, 0xbc, 0x13, 0x96, 0xdd, 0xc8, 0x82, 0xea, 0x2a,
    0x2c, 0x4f, 0x62, 0x82, 0x71, 0xc9, 0xff, 0x27, 0x0b, 0xc3, 0x72, 0x82, 0x04, 0xa0, 0x4c, 0x4c,
    0x75, 0x9a, 0xf6, 0x3f, 0xe6, 0xaf, 0x34, 0x7c, 0x22, 0x4b, 0x3e, 0x49, 0x38, 0xab, 0xf2, 0xfa,
    0x7b, 0x66, 0xf6, 0x5f, 0x16, 0xfa, 0x87, 0x8c, 0xcd, 0x4f, 0xda, 0xfc, 0x0f, 0x21, 0x57, 0x5f,
    0x72, 0x74, 0x25, 0xc8, 0xef, 0x1c, 0xcf, 0xaa, 0x97, 0xe1, 0x15, 0x7f, 0x0b, 0xcd, 0x18, 0x50,
    0xd2, 0xe4, 0xcf, 0x3a, 0x95, 0x79, 0xa9, 0x00, 0xf3, 0x26, 0x0e, 0x67, 0x96, 0x02, 0x71, 0xb9,
    0x6c, 0xfe, 0x0a, 0x12, 0x73, 0x1d, 0xba, 0x46, 0x85, 0xe6, 0x33, 0x47, 0xd1, 0x79, 0x5a, 0x50,
    0xca, 0x27, 0x9e, 0x75, 0xf8, 0xa0, 0xf3, 0xab, 0xf7, 0x3f, 0x17, 0x96, 0x46, 0x90, 0x27, 0x91,
    0xda, 0x2c, 0x0e, 0xa7, 0x6f, 0xef, 0x0d, 0xd1, 0x51, 0x56, 0x96, 0x38, 0x4c, 0xde, 0x59, 0x19,
    0x1a, 0x8d, 0x4b, 0x00, 0x80, 0xc0, 0x20, 0x1e, 0x91, 0x67, 0x92, 0xa2, 0xa3, 0xfc, 0x98, 0x35,
    0x33, 0x4d, 0x01, 0x8a, 0x79, 0x3c, 0x08, 0xc8, 0x82, 0x9b, 0xc9, 0xc0, 0x63, 0xb8, 0xe3, 0x62,
    0xf9, 0xe0, 0xcc, 0x82, 0xf0, 0x2e, 0x91, 0xde, 0xa4, 0x70, 0x81, 0x28, 0xca, 0x3f, 0xaf, 0xa1,
    0xc2, 0xa9, 0x22, 0xf7, 0x18, 0x5d, 0xbe, 0xcb, 0xf0, 0x33, 0xf1, 0x69, 0xd0, 0x18, 0xbc, 0x8f],
    by decide +kernel⟩

/-- The header of the edited file, with the actions its author allows. -/
def editedHeader (policy : Policy) : Header :=
  { sampleHeader with
    fileId := List.Vector.replicate 16 0
    chunkSize := 4096
    originalRoot := sampleBaseRoot
    policy := policy }

/-- The sample edit before it is signed. -/
def sampleUnsigned : Except EditWriteError Unsigned :=
  prepare sampleEditSha sampleEditBlake3 xChaCha20Poly1305 ⟨List.Vector.replicate 32 0⟩ samplePlan

/-- The sample edit when it is signed. -/
def sampleEdit : Except EditWriteError (ContentDesc × List UInt8 × List UInt8) := do
  let u ← sampleUnsigned
  finish sampleEditSha u sampleEditSignature ⟨List.Vector.replicate 32 0⟩
    (List.Vector.replicate 16 0) 5

/-- The sample edit is written and signed. -/
theorem exists_sampleEdit :
    ∃ u desc area payload, sampleUnsigned = .ok u ∧
      Rsa.verifyPssSha256 sampleEditSha sampleCert.editorKey u.transcript.asBytes
        sampleEditSignature.toList = .ok () ∧
      finish sampleEditSha u sampleEditSignature ⟨List.Vector.replicate 32 0⟩
        (List.Vector.replicate 16 0) 5 = .ok (desc, area, payload) := by
  have hwritten : sampleEdit.map (fun _ ↦ ()) = .ok () := by decide +kernel
  obtain ⟨⟨desc, area, payload⟩, hedit, -⟩ := Except.map_eq_ok_iff.mp hwritten
  obtain ⟨u, hu, hfinish⟩ := Except.bind_eq_ok_iff.mp hedit
  have hsigned : sampleUnsigned.map (fun u ↦ Rsa.verifyPssSha256 sampleEditSha
      sampleCert.editorKey u.transcript.asBytes sampleEditSignature.toList) = .ok (.ok ()) := by
    decide +kernel
  rw [hu, Except.ok_map, Except.ok.injEq] at hsigned
  exact ⟨u, desc, area, payload, hu, hsigned, hfinish⟩

/-- The sample edit is accepted if the author has allowed editing, and has the page as it was. -/
theorem written_edition_accepted_sampleEdit :
    ∃ u desc area payload body edition, sampleUnsigned = .ok u ∧
      finish sampleEditSha u sampleEditSignature ⟨List.Vector.replicate 32 0⟩
        (List.Vector.replicate 16 0) 5 = .ok (desc, area, payload) ∧
      ContentDesc.decodeVerifiedWithBody sampleEditSha (area ++ payload)
        ⟨List.Vector.replicate 32 0⟩ (List.Vector.replicate 16 0) 5 =
          .ok (desc, body, area.length) ∧
      verifyEdition sampleEditSha sampleCertEd25519
        (editedHeader ((Policy.denyAll.allow .view).allow .edit)) samplePlan.coreHash desc body
        (some 0) = .ok (some edition) ∧ edition.counter.toNat = 1 ∧
      ∃ page line : Chunk, payload = page.frame ++ line.frame ∧ page.frame = keptFrame := by
  obtain ⟨u, desc, area, payload, hu, hsigned, hfinish⟩ := exists_sampleEdit
  have hcert : EditorCert.verifyFor sampleCertEd25519 samplePlan.certifiedBy
      (editedHeader ((Policy.denyAll.allow .view).allow .edit)) (some 0) = .ok sampleCert := by
    decide +kernel
  obtain ⟨body, hread, -, hallowed, -, chunks, hpayload, hrevision⟩ :=
    written_edition_accepted lawful_xChaCha20Poly1305 hu hcert hsigned hfinish rfl
  obtain ⟨edition, hedition, hcounter, -⟩ := hallowed (by decide +kernel)
  obtain ⟨page, line, rfl⟩ := List.length_eq_two.mp hrevision.length
  obtain ⟨_, ⟨⟩, hkept, -⟩ := hrevision.chunkOf 0 (.keep keptFrame) rfl
  refine ⟨u, desc, area, payload, body, edition, hu, hfinish, hread, hedition, hcounter, page, line, ?_, hkept⟩
  rw [hpayload, List.map_cons, List.map_singleton, List.flatten_cons, List.flatten_singleton]

/-- **The sample edit is refused if the author has not allowed editing**, although its certificate and
its signature are valid. -/
theorem signed_edition_not_allowed :
    EditorCert.verifyFor sampleCertEd25519 samplePlan.certifiedBy
        (editedHeader (Policy.denyAll.allow .view)) (some 0) = .ok sampleCert ∧
      ∃ u desc area payload body, sampleUnsigned = .ok u ∧
        Rsa.verifyPssSha256 sampleEditSha sampleCert.editorKey u.transcript.asBytes
          sampleEditSignature.toList = .ok () ∧
        finish sampleEditSha u sampleEditSignature ⟨List.Vector.replicate 32 0⟩
          (List.Vector.replicate 16 0) 5 = .ok (desc, area, payload) ∧
        ContentDesc.decodeVerifiedWithBody sampleEditSha (area ++ payload)
          ⟨List.Vector.replicate 32 0⟩ (List.Vector.replicate 16 0) 5 =
            .ok (desc, body, area.length) ∧
        verifyEdition sampleEditSha sampleCertEd25519 (editedHeader (Policy.denyAll.allow .view))
          samplePlan.coreHash desc body (some 0) = .error .editNotAllowed := by
  refine ⟨by decide +kernel, ?_⟩
  obtain ⟨u, desc, area, payload, hu, hsigned, hfinish⟩ := exists_sampleEdit
  obtain ⟨⟨body, hread, -⟩, ⟨editor, heditor, -⟩, hediting, -, hmoved, -⟩ :=
    exists_of_finish lawful_xChaCha20Poly1305 hu hfinish
  exact ⟨u, desc, area, payload, body, hu, hsigned, hfinish, hread,
    verifyEdition_of_not_allowed (Option.isSome_iff_exists.mpr ⟨editor, heditor⟩) hmoved hediting
      (by decide +kernel)⟩

end Accepted

end OpenCrate.Engine.Edit
