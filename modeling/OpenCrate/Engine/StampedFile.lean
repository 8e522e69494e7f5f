import OpenCrate.Crypto.TreeUpdate
import OpenCrate.Data.MerkleRoots
import OpenCrate.Engine.Lifecycle
import OpenCrate.Format.Footer

/-!
# The file as one string of bytes

Header, region, frames and footer are written by different hands, and lie one behind the other in one file. A
reader has only the bytes and two keys: the header says where the region begins, the region how long it is and
how many frames follow, their layout where the frames end, and there the footer begins or the file is over.
`Finds` is what such a reader goes through, and everything that was packed, saved and stamped is found again.

A timestamp names a file by its imprint alone. Two files with one imprint, whoever wrote them and under
whatever keys they were opened, are one header apart from key material and one sequence of frames, or somebody
found a collision.
-/

namespace OpenCrate.Engine

open Crypto Format

/-! ### Readings -/

/-- What a reader has found in a file. -/
structure Found where
  header : VerifiedHeader
  /-- The header without key material, as it is hashed. -/
  core : List UInt8
  desc : ContentDesc
  layout : Layout
  opened : List (Chunk × List UInt8)
  footer : Option Footer

namespace Found

/-- The text of the file. -/
def content (f : Found) : List UInt8 := (f.opened.map Prod.snd).flatten

/-- Nonces, ciphertexts, tags and leaves. -/
def chunks (f : Found) : List Chunk := f.opened.map Prod.fst

/-- The frames of the file. -/
def payload (f : Found) : List UInt8 := (f.chunks.map Chunk.frame).flatten

/-- What is hashed into the imprint of the file. -/
def stamped (sha : Sha2) (f : Found) : List UInt8 :=
  (imprintTranscript (sha.sha256 f.core) f.desc.treeRoot f.desc.totalLen f.desc.versionCounter).asBytes

/-- The imprint of the file. -/
def imprint (sha : Sha2) (f : Found) : Digest :=
  Format.imprint sha.sha256 (sha.sha256 f.core) f.desc.treeRoot f.desc.totalLen f.desc.versionCounter

end Found

/-- How a file ends: with the last frame, or with a footer that begins there and is read to the end. -/
def EndsAt (file : List UInt8) (stop : ℕ) : Option UInt64 → Option Footer → Prop
  | none, footer => footer = none ∧ stop = file.length
  | some off, footer => off.toNat = stop ∧ ∃ read, Footer.decode (file.drop stop) = .ok read ∧ footer = some read

section Finding

variable (sha : Sha2) (blake3 : List UInt8 → Digest) (c : XChaCha) (ed : Ed25519)
  (lookup : List UInt8 → Digest → SignerTrust)

/-- A reader with the keys of the region and of the frames goes through the bytes of a file. -/
structure Finds (macKey : MacKey) (key : PayloadKey) (file : List UInt8) (f : Found) : Prop where
  header : verifyAndParse ed lookup file = .ok f.header
  core : Header.corePreimage f.header.headerBytes f.header.parsed.spans = .ok f.core
  region : ∃ read, ContentDesc.decodeVerified sha (file.drop f.header.contentDescOffset) macKey
      f.header.parsed.header.fileId f.header.parsed.header.containerVersion = .ok (f.desc, read) ∧
    Layout.new f.header.parsed.header.chunkSize f.desc.chunkCount f.desc.totalLen
      (UInt64.ofNat (f.header.contentDescOffset + read)) = .ok f.layout
  length : f.opened.length = f.desc.chunkCount.toNat
  /-- Every frame stands where the layout places it, and opens to its text and its leaf. -/
  frames : ∀ i o, f.opened[i]? = some o →
    (∃ start stop, f.layout.ciphertextSpan (UInt32.ofNat i) = .ok (start, stop) ∧
      slice? file start.toNat stop.toNat = some o.1.frame) ∧
    openChunk blake3 c key f.header.parsed.header.suite.aead f.header.parsed.header.fileId (UInt32.ofNat i)
      o.1.nonce o.1.framed f.header.parsed.header.chunkSize.toNat = .ok (o.2, o.1.leaf)
  root : ∃ tree, MerkleTree.build blake3 (f.chunks.map Chunk.leaf) = .ok tree ∧ f.desc.treeRoot = tree.root blake3
  stops : EndsAt file (f.layout.cipherBoundary f.layout.chunkCount.toNat) f.desc.footerOffset f.footer

end Finding

/-! ### What an imprint pins -/

section Imprints

variable {sha : Sha2} {blake3 : List UInt8 → Digest} {c : XChaCha} {ed : Ed25519}
  {lookup : List UInt8 → Digest → SignerTrust}

/-- **A root pins the leaves and their number.** -/
theorem leaves_eq_or_collide {leaves leaves' : List Leaf} {tree tree' : MerkleTree}
    (h : MerkleTree.build blake3 leaves = .ok tree) (h' : MerkleTree.build blake3 leaves' = .ok tree')
    (hroot : tree.root blake3 = tree'.root blake3) :
    leaves = leaves' ∨
      (MerkleTree.hashedByBuild blake3 leaves).Collide blake3 (MerkleTree.hashedByBuild blake3 leaves') := by
  obtain ⟨hne, hlen, rfl⟩ := MerkleTree.build_eq_ok_iff.mp h
  obtain ⟨hne', hlen', rfl⟩ := MerkleTree.build_eq_ok_iff.mp h'
  have hapex := MerkleTree.apex_levels blake3 hne
  have hapex' := MerkleTree.apex_levels blake3 hne'
  rw [MerkleTree.root, MerkleTree.root, MerkleTree.leafCount_levels hlen,
    MerkleTree.leafCount_levels hlen'] at hroot
  generalize MerkleTree.apex _ = top at hapex hroot
  generalize MerkleTree.apex _ = top' at hapex' hroot
  have hmem : (UInt32.ofNat leaves.length, top) ∈ (MerkleTree.hashedByBuild blake3 leaves).roots := by
    rw [MerkleTree.hashedByBuild, hapex]
    exact List.mem_singleton_self _
  have hmem' : (UInt32.ofNat leaves'.length, top') ∈ (MerkleTree.hashedByBuild blake3 leaves').roots := by
    rw [MerkleTree.hashedByBuild, hapex']
    exact List.mem_singleton_self _
  rcases Merkle.eq_or_collides (f := Function.uncurry (rootOf blake3)) hmem hmem' hroot with heq | hcol
  · obtain ⟨hlength, rfl⟩ := Prod.mk.inj heq
    have hlength : leaves.length = leaves'.length := by
      rw [← UInt32.toNat_ofNat_of_lt' hlen, hlength, UInt32.toNat_ofNat_of_lt' hlen']
    have hmap : (leaves.map Leaf.bytes).length = (leaves'.map Leaf.bytes).length := by
      rw [List.length_map, List.length_map, hlength]
    rcases Merkle.eq_or_collides_of_apex hmap (hapex.trans hapex'.symm) with heq | hcol
    · refine Or.inl (List.map_injective_iff.mpr (fun a b hab ↦ ?_) heq)
      obtain ⟨bytes⟩ := a
      exact congrArg Leaf.mk hab
    · exact Or.inr (Or.inr hcol)
  · exact Or.inr (Or.inl hcol)

/-- What is hashed into the leaf of a chunk. -/
def leafInput (index : UInt32) (chunk : Chunk) : List UInt8 :=
  let ctLen := chunk.framed.length - Crypto.tagLen
  [0x00] ++ Label.leaf.asBytes ++ toBeBytes index ++ toBeBytes (UInt64.ofNat ctLen) ++ chunk.nonce.toList ++
    chunk.framed.drop ctLen ++ chunk.framed.take ctLen

/-- What is hashed into the leaves of a file. -/
def leafInputs (chunks : List Chunk) : List (List UInt8) :=
  chunks.zipIdx.map fun chunk ↦ leafInput (UInt32.ofNat chunk.2) chunk.1

/-- Every chunk is hashed at its position. -/
theorem mem_leafInputs {chunks : List Chunk} {i : ℕ} {chunk : Chunk} (h : chunks[i]? = some chunk) :
    leafInput (UInt32.ofNat i) chunk ∈ leafInputs chunks :=
  List.mem_map.mpr ⟨(chunk, i), List.mem_zipIdx_iff_getElem?.mpr h, rfl⟩

variable {index : UInt32} {chunk chunk' : Chunk}

/-- The input of a leaf, taken apart. -/
theorem leafInput_eq {ct : List UInt8} {tag : Tag} (h : chunk.framed = ct ++ tag.toList) :
    leafInput index chunk = [0x00] ++ Label.leaf.asBytes ++ toBeBytes index ++
      toBeBytes (UInt64.ofNat ct.length) ++ chunk.nonce.toList ++ tag.toList ++ ct := by
  have hlen : chunk.framed.length - Crypto.tagLen = ct.length := by
    rw [h, List.length_append, tag.toList_length, Nat.add_sub_cancel]
  simp only [leafInput, hlen]
  rw [h, List.drop_left, List.take_left]

/-- A chunk and its leaf have one frame only. -/
theorem eq_or_collides_of_leaf (h : Edit.LeafOf blake3 index chunk) (h' : Edit.LeafOf blake3 index chunk')
    (hleaf : chunk.leaf = chunk'.leaf) {inputs inputs' : List (List UInt8)}
    (hmem : leafInput index chunk ∈ inputs) (hmem' : leafInput index chunk' ∈ inputs') :
    chunk = chunk' ∨ Merkle.Collides blake3 inputs inputs' := by
  obtain ⟨ct, tag, hframed, hvalue⟩ := h
  obtain ⟨ct', tag', hframed', hvalue'⟩ := h'
  have hbytes : blake3 (leafInput index chunk) = blake3 (leafInput index chunk') := by
    rw [leafInput_eq hframed, leafInput_eq hframed']
    exact congrArg Leaf.bytes ((hvalue.symm.trans hleaf).trans hvalue')
  rcases Merkle.eq_or_collides hmem hmem' hbytes with heq | hcol
  · rw [leafInput_eq hframed, leafInput_eq hframed'] at heq
    simp only [List.append_assoc, List.append_cancel_left_eq] at heq
    obtain ⟨-, hrest⟩ := prefixFree_toBeBytes _ _ _ _ heq
    obtain ⟨hnonce, hrest⟩ := prefixFree_vector _ _ _ _ _ hrest
    obtain ⟨htag, hct⟩ := prefixFree_vector _ _ _ _ _ hrest
    left
    obtain ⟨nonce, framed, leaf⟩ := chunk
    obtain ⟨nonce', framed', leaf'⟩ := chunk'
    simp only at hframed hframed' hnonce hleaf
    rw [hframed, hframed', hnonce, hleaf, htag, hct]
  · exact Or.inr hcol

/-- Whoever opens a chunk computes the leaf of its frame. -/
theorem leafOf_of_openChunk {key : PayloadKey} {alg : AeadAlg} {fileId : List.Vector UInt8 16}
    {capacity : ℕ} {text : List UInt8}
    (h : openChunk blake3 c key alg fileId index chunk.nonce chunk.framed capacity = .ok (text, chunk.leaf)) :
    Edit.LeafOf blake3 index chunk := by
  simp only [openChunk, Except.bind_eq_ok_iff, Except.okOr_eq_ok_iff, Prod.exists, Except.ok.injEq,
    Prod.mk.injEq] at h
  obtain ⟨ct, tag, hsplit, -, -, _, -, -, hleaf⟩ := h
  exact ⟨ct, tag, splitLastChunk?_eq_some_iff.mp hsplit, hleaf.symm⟩

variable (blake3) in
/-- BLAKE3 has a collision among the inputs of the leaves of two files, or in their trees. -/
def ChunksCollide (chunks chunks' : List Chunk) : Prop :=
  Merkle.Collides blake3 (leafInputs chunks) (leafInputs chunks') ∨
    (MerkleTree.hashedByBuild blake3 (chunks.map Chunk.leaf)).Collide blake3
      (MerkleTree.hashedByBuild blake3 (chunks'.map Chunk.leaf))

/-- **A root pins the chunks**, if their leaves are those of their frames. -/
theorem chunks_eq_or_collide {chunks chunks' : List Chunk} {tree tree' : MerkleTree}
    (hleaf : ∀ i chunk, chunks[i]? = some chunk → Edit.LeafOf blake3 (UInt32.ofNat i) chunk)
    (hleaf' : ∀ i chunk, chunks'[i]? = some chunk → Edit.LeafOf blake3 (UInt32.ofNat i) chunk)
    (hbuild : MerkleTree.build blake3 (chunks.map Chunk.leaf) = .ok tree)
    (hbuild' : MerkleTree.build blake3 (chunks'.map Chunk.leaf) = .ok tree')
    (hroot : tree.root blake3 = tree'.root blake3) : chunks = chunks' ∨ ChunksCollide blake3 chunks chunks' := by
  rcases leaves_eq_or_collide hbuild hbuild' hroot with hleaves | hcol
  · by_cases hcol : Merkle.Collides blake3 (leafInputs chunks) (leafInputs chunks')
    · exact Or.inr (Or.inl hcol)
    · refine Or.inl (List.ext_getElem? fun i ↦ ?_)
      have hvalue := congrArg (fun leaves ↦ leaves[i]?) hleaves
      simp only [List.getElem?_map] at hvalue
      rcases hi : chunks[i]? with - | chunk
      · rw [hi, Option.map_none, eq_comm, Option.map_eq_none_iff] at hvalue
        exact hvalue.symm
      · rw [hi, Option.map_some, eq_comm, Option.map_eq_some_iff] at hvalue
        obtain ⟨chunk', hi', hvalue⟩ := hvalue
        rcases eq_or_collides_of_leaf (hleaf i chunk hi) (hleaf' i chunk' hi') hvalue.symm (mem_leafInputs hi)
          (mem_leafInputs hi') with rfl | hcol'
        · exact hi'.symm
        · exact absurd hcol' hcol
  · exact Or.inr (Or.inr hcol)

variable {macKey macKey' : MacKey} {key key' : PayloadKey} {file file' : List UInt8} {f f' : Found}

variable (sha blake3) in
/-- Somebody hashed a collision: of SHA-256 among the cores and the imprints of the two files, or of BLAKE3
among the inputs of their leaves, or in their trees. -/
def Found.Collide (f f' : Found) : Prop :=
  Merkle.Collides sha.sha256 [f.core, f.stamped sha] [f'.core, f'.stamped sha] ∨
    Merkle.Collides blake3 (leafInputs f.chunks) (leafInputs f'.chunks) ∨
    (MerkleTree.hashedByBuild blake3 (f.chunks.map Chunk.leaf)).Collide blake3
      (MerkleTree.hashedByBuild blake3 (f'.chunks.map Chunk.leaf))

namespace Finds

/-- A chunk that was found opens. -/
theorem openChunk_of_getElem? (h : Finds sha blake3 c ed lookup macKey key file f) {i : ℕ} {chunk : Chunk}
    (hchunk : f.chunks[i]? = some chunk) : ∃ text, f.opened[i]? = some (chunk, text) ∧
      openChunk blake3 c key f.header.parsed.header.suite.aead f.header.parsed.header.fileId (UInt32.ofNat i)
        chunk.nonce chunk.framed f.header.parsed.header.chunkSize.toNat = .ok (text, chunk.leaf) := by
  rw [Found.chunks, List.getElem?_map, Option.map_eq_some_iff] at hchunk
  obtain ⟨⟨_, text⟩, hopened, rfl⟩ := hchunk
  exact ⟨text, hopened, (h.frames i _ hopened).2⟩

/-- The fields of a header apart from key material are what is hashed of it. -/
theorem exists_contents (h : Finds sha blake3 c ed lookup macKey key file f) :
    ∃ l, Encodes f.header.headerBytes l ∧ f.header.parsed.reading.core =
        (withoutKeyMaterial l).foldl coreStep ({} : HeaderReading).core ∧ f.core = coreBytes l := by
  obtain ⟨headerBytes, signature, rest, parsed, rfl, hacc, hv⟩ := verifyAndParse_eq_ok_iff.mp h.header
  have hcore := h.core
  rw [hv] at hcore ⊢
  obtain ⟨l, henc, hfold⟩ := exists_reading_of_decode hacc.decoded
  rw [corePreimage_eq henc (.run hfold), Except.ok.injEq] at hcore
  exact ⟨l, henc, core_eq_foldl hfold, hcore.symm⟩

/-- **Equal cores**: the headers are the same apart from key material, field by field. -/
theorem header_eq_of_core_eq (h : Finds sha blake3 c ed lookup macKey key file f)
    (h' : Finds sha blake3 c ed lookup macKey' key' file' f') (hcore : f.core = f'.core) :
    coreFields f.header.headerBytes = coreFields f'.header.headerBytes ∧
      { f.header.parsed.header with
        keySlots := f'.header.parsed.header.keySlots
        wrappedCek := f'.header.parsed.header.wrappedCek } = f'.header.parsed.header := by
  obtain ⟨l, henc, hread, hl⟩ := h.exists_contents
  obtain ⟨l', henc', hread', hl'⟩ := h'.exists_contents
  have hfields : withoutKeyMaterial l = withoutKeyMaterial l' :=
    (coreBytes_eq_iff henc henc').mp (hl.symm.trans (hcore.trans hl'))
  refine ⟨?_, eq_of_core_eq ?_⟩
  · rw [henc.coreFields, henc'.coreFields, hfields]
  · rw [hread, hread', hfields]

/-- **Equal roots**: the frames are the same, one by one. -/
theorem chunks_eq_or_collide (h : Finds sha blake3 c ed lookup macKey key file f)
    (h' : Finds sha blake3 c ed lookup macKey' key' file' f') (hroot : f.desc.treeRoot = f'.desc.treeRoot) :
    f.chunks = f'.chunks ∨ f.Collide sha blake3 f' := by
  obtain ⟨tree, hbuild, htree⟩ := h.root
  obtain ⟨tree', hbuild', htree'⟩ := h'.root
  refine (Engine.chunks_eq_or_collide (fun i chunk hi ↦ ?_) (fun i chunk hi ↦ ?_) hbuild hbuild'
    ((htree.symm.trans hroot).trans htree')).imp_right Or.inr
  · obtain ⟨text, -, hopen⟩ := h.openChunk_of_getElem? hi
    exact leafOf_of_openChunk hopen
  · obtain ⟨text, -, hopen⟩ := h'.openChunk_of_getElem? hi
    exact leafOf_of_openChunk hopen

/-- Under one key the same frames are the same text. -/
theorem content_eq (h : Finds sha blake3 c ed lookup macKey key file f)
    (h' : Finds sha blake3 c ed lookup macKey' key file' f') (hchunks : f.chunks = f'.chunks)
    (hheader : { f.header.parsed.header with
        keySlots := f'.header.parsed.header.keySlots
        wrappedCek := f'.header.parsed.header.wrappedCek } = f'.header.parsed.header) :
    f.content = f'.content := by
  have hlength : f.opened.length = f'.opened.length := by
    have := congrArg List.length hchunks
    rwa [Found.chunks, Found.chunks, List.length_map, List.length_map] at this
  suffices hopened : f.opened = f'.opened by rw [Found.content, Found.content, hopened]
  refine List.ext_getElem? fun i ↦ ?_
  have hi : f.chunks[i]? = f'.chunks[i]? := by rw [hchunks]
  rcases hchunk : f.chunks[i]? with - | chunk
  · have hnone := (List.getElem?_eq_none_iff.mp hchunk)
    rw [Found.chunks, List.length_map] at hnone
    rw [List.getElem?_eq_none hnone, List.getElem?_eq_none (hlength ▸ hnone)]
  · obtain ⟨text, hopened, hopen⟩ := h.openChunk_of_getElem? hchunk
    obtain ⟨text', hopened', hopen'⟩ := h'.openChunk_of_getElem? (hi ▸ hchunk)
    rw [← hheader] at hopen'
    obtain ⟨rfl, -⟩ := Prod.mk.inj (Except.ok.inj (hopen.symm.trans hopen'))
    rw [hopened, hopened']

end Finds

/-- **A timestamp pins a file.** Two files, read by whomever, that have one imprint have one header apart from key
material, one length, one counter and the same frames, or somebody hashed a collision; and whoever reads both
under one key reads one text. -/
theorem imprint_pins_file (h : Finds sha blake3 c ed lookup macKey key file f)
    (h' : Finds sha blake3 c ed lookup macKey' key' file' f') (himprint : f.imprint sha = f'.imprint sha) :
    f.Collide sha blake3 f' ∨
      coreFields f.header.headerBytes = coreFields f'.header.headerBytes ∧
        { f.header.parsed.header with
          keySlots := f'.header.parsed.header.keySlots
          wrappedCek := f'.header.parsed.header.wrappedCek } = f'.header.parsed.header ∧
        f.desc.totalLen = f'.desc.totalLen ∧ f.desc.versionCounter = f'.desc.versionCounter ∧
        f.desc.chunkCount = f'.desc.chunkCount ∧ f.chunks = f'.chunks ∧
        (key = key' → f.content = f'.content) := by
  have hstamp {g : Found} : g.stamped sha ∈ [g.core, g.stamped sha] := List.mem_cons_of_mem _ List.mem_cons_self
  have hhashed {g : Found} : g.core ∈ [g.core, g.stamped sha] := List.mem_cons_self
  rcases Merkle.eq_or_collides (f := sha.sha256) hstamp hstamp himprint with hstamped | hcol
  · obtain ⟨hcore, hroot, htotal, hcounter⟩ := imprintTranscript_inj hstamped
    rcases Merkle.eq_or_collides (f := sha.sha256) hhashed hhashed hcore with hcore | hcol
    · rcases h.chunks_eq_or_collide h' hroot with hchunks | hcol
      · obtain ⟨hfields, hheader⟩ := h.header_eq_of_core_eq h' hcore
        have hcount : f.desc.chunkCount = f'.desc.chunkCount := by
          have hlen := congrArg List.length hchunks
          rw [Found.chunks, Found.chunks, List.length_map, List.length_map, h.length, h'.length] at hlen
          exact UInt32.toNat_inj.mp hlen
        refine Or.inr ⟨hfields, hheader, htotal, hcounter, hcount, hchunks, fun hkey ↦ ?_⟩
        subst hkey
        exact h.content_eq h' hchunks hheader
      · exact Or.inl hcol
    · exact Or.inl (Or.inl hcol)
  · exact Or.inl (Or.inl hcol)

end Imprints

/-! ### What is written is found -/

section Written

variable {γ σ ε : Type} {sha : Sha2} {blake3 : List UInt8 → Digest} {c : XChaCha} {ed : Ed25519}
  {lookup : List UInt8 → Digest → SignerTrust} {file : EditedFile} {doc : List Sheet} {copy : Copy}
  {chunks : List Chunk} {headerBytes area tail : List UInt8} {signature : Signature} {parsed : ParsedHeader}
  {off : Option UInt64} {footer : Option Footer}

/-- The whole file: the prologue, the region, the frames, and what stands behind them. -/
def fileBytes (headerBytes : List UInt8) (signature : Signature) (area payload tail : List UInt8) : List UInt8 :=
  assemble headerBytes signature ++ area ++ (payload ++ tail)

/-- What is written behind the frames: nothing, or a footer whose offset the region has. -/
def Closes (stop : ℕ) : Option UInt64 → Option Footer → List UInt8 → Prop
  | none, footer, tail => footer = none ∧ tail = []
  | some off, footer, tail => off.toNat = stop ∧ ∃ written : Footer, written.encode = .ok tail ∧ footer = some written

/-- The header says of the file what its editors take from it. -/
structure EditedFile.Of (file : EditedFile) (parsed : ParsedHeader) : Prop where
  fileId : parsed.header.fileId = file.fileId
  chunkSize : parsed.header.chunkSize = file.chunkSize
  alg : parsed.header.suite.aead = file.alg
  version : parsed.header.containerVersion = file.containerVersion

/-- What is packed has no editor. -/
theorem editorReadable_packedCopy (sealed : Sealed) (area payload : List UInt8) :
    (packedCopy sealed area payload).desc.EditorReadable := by
  intro e he
  exact absurd he (Option.some_ne_none e).symm

/-- A part of the rest is a part of the whole. -/
theorem slice?_behind {α : Type} (pre : List α) {l part : List α} {start stop : ℕ}
    (h : slice? l start stop = some part) :
    slice? (pre ++ l) (pre.length + start) (pre.length + stop) = some part := by
  obtain ⟨hle, hlen, hpart⟩ := slice?_eq_some_iff.mp h
  refine slice?_eq_some_iff.mpr ⟨by omega, by rw [List.length_append]; omega, ?_⟩
  rw [List.drop_length_add_append, Nat.add_sub_add_left, hpart]

/-- What closes a file is read where the frames end. -/
theorem Closes.endsAt {pre : List UInt8} (h : Closes pre.length off footer tail) :
    EndsAt (pre ++ tail) pre.length off footer := by
  rcases off with - | off
  · obtain ⟨rfl, rfl⟩ := h
    exact ⟨rfl, by rw [List.append_nil]⟩
  · obtain ⟨hoff, written, hwritten, rfl⟩ := h
    refine ⟨hoff, written, ?_, rfl⟩
    rw [List.drop_left]
    exact Footer.decode_encode hwritten

/-- **The file that seals a document is found** in its bytes, whatever closes it. -/
theorem Copy.SealsWith.finds (lookup : List UInt8 → Digest → SignerTrust) (hc : c.Lawful)
    (h : SealsWith sha blake3 c file.toStreamCall doc copy chunks)
    (hheader : Accepted ed headerBytes signature parsed) (hof : file.Of parsed)
    (hreadable : copy.desc.EditorReadable)
    (harea : { copy.desc with footerOffset := off }.encode sha file.macKey file.fileId file.containerVersion =
      .ok area)
    (hcloses : Closes (assemble headerBytes signature ++ area ++ copy.payload).length off footer tail)
    (hlen : (fileBytes headerBytes signature area copy.payload tail).length < 2 ^ 64) :
    ∃ f, Finds sha blake3 c ed lookup file.macKey file.key
        (fileBytes headerBytes signature area copy.payload tail) f ∧
      f.header.parsed = parsed ∧ f.header.headerBytes = headerBytes ∧
      f.desc = { copy.desc with footerOffset := off } ∧ f.content = content doc ∧ f.payload = copy.payload ∧
      f.footer = footer := by
  obtain ⟨pre, hpre⟩ : ∃ pre, assemble headerBytes signature ++ area = pre := ⟨_, rfl⟩
  have hpreLen : (assemble headerBytes signature).length + area.length = pre.length := by
    rw [← hpre, List.length_append]
  rw [fileBytes, hpre] at hlen ⊢
  rw [hpre] at hcloses
  have hfits : ∀ n ≤ pre.length + copy.payload.length, (UInt64.ofNat n).toNat = n := by
    intro n hn
    rw [List.length_append, List.length_append] at hlen
    exact UInt64.toNat_ofNat_of_lt' (lt_of_le_of_lt (by omega) hlen)
  -- the header, and the part of it that is hashed
  obtain ⟨l, henc, hfold⟩ := exists_reading_of_decode hheader.decoded
  -- the region, whatever follows it
  obtain ⟨body, -, hregion⟩ :=
    (ContentDesc.decodeVerifiedWithBody_encode_iff harea (copy.payload ++ tail)).mpr hreadable
  -- the layout of the frames behind it
  obtain ⟨layout, hnew, htiles⟩ := h.tiles (UInt64.ofNat pre.length)
  obtain ⟨-, hsize, hcount, htotal, hoffset, hpieces⟩ := h.of_layout hnew
  have hexact : layout.chunkCount.toNat = pieceCount layout.totalLen.toNat layout.chunkSize.toNat := by
    rw [hcount, htotal, hsize, hpieces]
  have hoff : layout.payloadOffset.toNat = pre.length := by
    rw [hoffset, hfits _ (Nat.le_add_right _ _)]
  have hlength : chunks.length = (doc.map Sheet.text).length := by rw [h.length, List.length_map]
  refine ⟨⟨⟨parsed, headerBytes, (assemble headerBytes signature).length,
      lookup parsed.header.orgId parsed.header.authorKey⟩, coreBytes l, { copy.desc with footerOffset := off },
      layout, chunks.zip (doc.map Sheet.text), footer⟩, ?_, rfl, rfl, rfl, ?_, ?_, rfl⟩
  · refine ⟨?_, corePreimage_eq henc (.run hfold), ⟨area.length, ?_, ?_⟩, ?_, ?_, ?_, ?_⟩
    · rw [← hpre, List.append_assoc]
      exact (verifyAndParse_assemble hheader.short).mpr ⟨parsed, hheader, rfl⟩
    · show ContentDesc.decodeVerified sha (List.drop (assemble headerBytes signature).length
        (pre ++ (copy.payload ++ tail))) file.macKey parsed.header.fileId parsed.header.containerVersion = _
      rw [← hpre, List.append_assoc, List.drop_left, hof.fileId, hof.version, ContentDesc.decodeVerified, hregion]
      rfl
    · show Layout.new parsed.header.chunkSize copy.desc.chunkCount copy.desc.totalLen
        (UInt64.ofNat ((assemble headerBytes signature).length + area.length)) = _
      rw [hof.chunkSize, hpreLen]
      exact hnew
    · rw [List.length_zip, ← hlength, Nat.min_self, h.length]
      exact h.chunkCount.symm
    · intro i o ho
      obtain ⟨hchunk, htext⟩ := List.getElem?_zip_eq_some.mp ho
      rw [List.getElem?_map, Option.map_eq_some_iff] at htext
      obtain ⟨sheet, hsheet, htext⟩ := htext
      have hi : (UInt32.ofNat i).toNat = i := by
        have hlt := (List.getElem?_eq_some_iff.mp hchunk).1
        rw [h.length, ← h.chunkCount] at hlt
        exact UInt32.toNat_ofNat_of_lt' (hlt.trans copy.desc.chunkCount.toNat_lt)
      have hframe : (chunks.map Chunk.frame)[(UInt32.ofNat i).toNat]? = some o.1.frame := by
        rw [hi, List.getElem?_map, hchunk]
        rfl
      obtain ⟨pos, hslice, hspan⟩ := htiles.exists_span hexact hframe
      rw [← h.payload] at hslice
      have hpos := (slice?_eq_some_iff.mp hslice).2.1
      have hstart := hfits (pre.length + pos) (by omega)
      have hstop := hfits (pre.length + (pos + o.1.frame.length)) (by omega)
      refine ⟨⟨UInt64.ofNat (pre.length + pos), UInt64.ofNat (pre.length + (pos + o.1.frame.length)), ?_, ?_⟩, ?_⟩
      · rw [hspan, hoff, hstart, hstop]
        exact ⟨rfl, (Nat.add_assoc _ _ _).symm⟩
      · rw [hstart, hstop]
        exact slice?_behind pre (slice?_append_of_eq_some hslice tail)
      · show Crypto.openChunk blake3 c file.key parsed.header.suite.aead parsed.header.fileId (UInt32.ofNat i) o.1.nonce
          o.1.framed parsed.header.chunkSize.toNat = _
        rw [hof.alg, hof.fileId, hof.chunkSize, ← htext]
        refine h.openChunk hc hsheet hchunk ?_
        rw [h.length_text hc hsheet]
        exact Nat.min_le_right _ _
    · obtain ⟨tree, hbuild, hroot⟩ := h.root
      refine ⟨tree, ?_, hroot⟩
      show MerkleTree.build blake3 (((chunks.zip (doc.map Sheet.text)).map Prod.fst).map Chunk.leaf) = _
      rw [List.map_fst_zip hlength.le, hbuild]
    · have hstop : layout.cipherBoundary layout.chunkCount.toNat = (pre ++ copy.payload).length := by
        have hflatten := htiles.length_flatten hexact
        rw [← h.payload] at hflatten
        rw [Layout.Exact.cipherBoundary_chunkCount hexact, hoff, List.length_append, hflatten]
        omega
      show EndsAt _ (layout.cipherBoundary layout.chunkCount.toNat) off footer
      rw [hstop, ← List.append_assoc]
      exact hcloses.endsAt
  · show ((chunks.zip (doc.map Sheet.text)).map Prod.snd).flatten = content doc
    rw [List.map_snd_zip hlength.ge, content]
  · show (((chunks.zip (doc.map Sheet.text)).map Prod.fst).map Chunk.frame).flatten = copy.payload
    rw [List.map_fst_zip hlength.le, h.payload]

/-- What an editor leaves in the region: a signature of the scheme that is read, and no footer. -/
theorem Copy.editor_of_save (hc : c.Lawful) {copy' : Copy} {s : Save}
    (h : copy.save sha blake3 c file s = .ok copy') :
    ∃ e, copy'.desc.editor = some e ∧ e.sigAlg = .rsaPssSha256 ∧ copy'.desc.footerOffset = none := by
  simp only [Copy.save, Except.bind_eq_ok_iff, Prod.exists, Except.ok.injEq] at h
  obtain ⟨u, hprepare, desc, area, payload, hfinish, rfl⟩ := h
  obtain ⟨⟨head, draft, heditor, -⟩, -⟩ := Edit.exists_of_prepare hc hprepare
  have hfooter : u.desc.footerOffset = none := by
    simp only [Edit.prepare, Except.bind_eq_ok_iff, Except.ok.injEq] at hprepare
    obtain ⟨_, -, _, -, _, -, _, -, _, -, _, -, _, -, _, -, rfl⟩ := hprepare
    rfl
  simp only [Edit.finish, Except.bind_eq_ok_iff, Except.ok.injEq, Prod.mk.injEq, heditor, Option.map_some]
    at hfinish
  obtain ⟨_, -, rfl, -⟩ := hfinish
  exact ⟨_, rfl, rfl, hfooter⟩

/-- After a run of saves, too. -/
theorem Copy.editor_of_saves (hc : c.Lawful) {copy' : Copy} {saves : List Save} (hne : saves ≠ [])
    (h : saves.foldlM (Copy.save sha blake3 c file) copy = .ok copy') :
    ∃ e, copy'.desc.editor = some e ∧ e.sigAlg = .rsaPssSha256 ∧ copy'.desc.footerOffset = none := by
  induction saves generalizing copy with
  | nil => exact absurd rfl hne
  | cons s saves ih =>
    rw [List.foldlM_cons] at h
    obtain ⟨mid, hsave, hrest⟩ := Except.bind_eq_ok_iff.mp h
    -- the editor that stands in the file is the one of the last save
    rcases saves with - | ⟨s', saves⟩
    · obtain rfl := Except.ok.inj hrest
      exact Copy.editor_of_save hc hsave
    · exact ih (List.cons_ne_nil _ _) hrest

/-- So that the region is read. -/
theorem Copy.editorReadable_of_saves (hc : c.Lawful) {copy' : Copy} {saves : List Save} (hne : saves ≠ [])
    (h : saves.foldlM (Copy.save sha blake3 c file) copy = .ok copy') : copy'.desc.EditorReadable := by
  intro e he
  obtain ⟨e', he', hscheme, -⟩ := Copy.editor_of_saves hc hne h
  rwa [← Option.some.inj (he'.symm.trans he)]

/-- The signature of an editor does not survive a footer: what it signed is shorter. -/
theorem editorTranscript_ne_of_footer {d : ContentDesc} {e : EditorSignature} {version : UInt16} {at_ : UInt64}
    {body body' : List UInt8} {coreHash : Digest} {t t' : Transcript} (hd : d.editor = some e)
    (hnone : d.footerOffset = none) (hbody : d.bodyBytes version = .ok body)
    (hbody' : { d with footerOffset := some at_ }.bodyBytes version = .ok body')
    (ht : editorTranscript coreHash body = .ok t) (ht' : editorTranscript coreHash body' = .ok t') : t ≠ t' := by
  intro heq
  have hcut := bodyWithoutSignature_encodeBody hd hbody
  have hcut' := bodyWithoutSignature_encodeBody (d := { d with footerOffset := some at_ }) hd hbody'
  rw [editorTranscript, hcut, Except.ok_bind, Except.ok.injEq] at ht
  rw [editorTranscript, hcut', Except.ok_bind, Except.ok.injEq] at ht'
  have hlen := congrArg (fun t : Transcript ↦ t.buf.length) (ht.trans (heq.trans ht'.symm))
  simp only [Transcript.field, Transcript.fixed, List.length_append, length_toLeBytes, length_encodeContents,
    ContentDesc.commonContents, hnone, encodedLength_append, Option.map_none, Option.map_some, optField_none,
    optField_some, encodedLength_nil, encodedLength_cons, fieldPrefixLen] at hlen
  omega

variable {rng : Rng γ} {source : Source ε σ} {src src' : σ} {plain payload area₀ : List UInt8} {d d' : γ}
  {sealed : Sealed} {saves : List Save}

variable (lookup) in
/-- **What was packed, saved and stamped is found** in the bytes of the file: its header, the document that the
saves mean, the count of the saves, and the footer. But what an editor signed is not what is found under a
footer. -/
theorem stamped_file_found (hc : c.Lawful) (halg : file.alg.ensureSupported = .ok ())
    (hsize : checkChunkSize file.chunkSize = .ok file.chunkSize) (hplain : Delivers source src plain)
    (hstream : sealChunks sha blake3 c file.toStreamCall rng source collect ⟨src, [], d⟩ =
      .ok (sealed, ⟨src', payload, d'⟩))
    (hsaves : saves.foldlM (Copy.save sha blake3 c file) (packedCopy sealed area₀ payload) = .ok copy)
    (hheader : Accepted ed headerBytes signature parsed) (hof : file.Of parsed)
    (harea : { copy.desc with footerOffset := off }.encode sha file.macKey file.fileId file.containerVersion =
      .ok area)
    (hcloses : Closes (assemble headerBytes signature ++ area ++ copy.payload).length off footer tail)
    (hlen : (fileBytes headerBytes signature area copy.payload tail).length < 2 ^ 64) :
    (∃ f, Finds sha blake3 c ed lookup file.macKey file.key
        (fileBytes headerBytes signature area copy.payload tail) f ∧
      f.header.parsed = parsed ∧ f.header.headerBytes = headerBytes ∧
      f.desc = { copy.desc with footerOffset := off } ∧ f.desc.versionCounter.toNat = saves.length ∧
      f.payload = copy.payload ∧ f.footer = footer ∧ f.content = content ((saves.map Save.changes).foldl revise
        (drafts rng d (pieces file.chunkSize.toNat plain)))) ∧
      ∀ body body' t t', saves ≠ [] → off ≠ none → copy.desc.bodyBytes file.containerVersion = .ok body →
        { copy.desc with footerOffset := off }.bodyBytes file.containerVersion = .ok body' →
        editorTranscript file.coreHash body = .ok t → editorTranscript file.coreHash body' = .ok t' → t ≠ t' := by
  obtain ⟨chunks₀, hpacked⟩ := sealsWith_of_sealChunks hc halg hsize hplain hstream area₀
  obtain ⟨⟨chunks, hseals⟩, hcounter, -⟩ := hpacked.saves hc hsaves
  have hreadable : copy.desc.EditorReadable := by
    by_cases hne : saves = []
    · subst hne
      obtain rfl := Except.ok.inj hsaves
      exact editorReadable_packedCopy _ _ _
    · exact Copy.editorReadable_of_saves hc hne hsaves
  obtain ⟨f, hfinds, hparsed, hbytes, hdesc, hcontent, hpayload, hfooter⟩ :=
    hseals.finds lookup hc hheader hof hreadable harea hcloses hlen
  refine ⟨⟨f, hfinds, hparsed, hbytes, hdesc, ?_, hpayload, hfooter, hcontent⟩, ?_⟩
  · rw [hdesc]
    exact hcounter.trans (Nat.zero_add _)
  · intro body body' t t' hne hoff hbody hbody' ht ht'
    obtain ⟨e, he, -, hnone⟩ := Copy.editor_of_saves hc hne hsaves
    obtain ⟨at_, rfl⟩ := Option.ne_none_iff_exists'.mp hoff
    exact editorTranscript_ne_of_footer he hnone hbody hbody' ht ht'

end Written

/-! ### The sample file, stamped -/

section Sample

/-- The header of the file. -/
def draftHeader : Header :=
  { sampleHeader with fileId := sampleFile.fileId, chunkSize := sampleFile.chunkSize, originalRoot := draftRoot }

/-- The signature of its author. -/
def draftHeaderSignature : Signature :=
  ⟨[0x3d, 0x0f, 0x2a, 0x32, 0xd0, 0xd5, 0xbe, 0x14, 0x3f, 0x90, 0xe5, 0xaa, 0x70, 0xc5, 0x21, 0x83,
    0x95, 0xa4, 0x6e, 0xba, 0x11, 0x27, 0xdb, 0xbf, 0xf2, 0x7b, 0xcd, 0xea, 0x7e, 0x5c, 0x6b, 0x42,
    0x98, 0xe4, 0xf5, 0x80, 0x34, 0xbd, 0x16, 0x92, 0x60, 0xba, 0xb5, 0x85, 0xb4, 0xdc, 0x00, 0x8f,
    0x22, 0x08, 0xc4, 0xb0, 0x05, 0x40, 0x23, 0x18, 0x09, 0xd3, 0x57, 0x57, 0x54, 0xad, 0x92, 0x0c], rfl⟩

/-- Ed25519 as it is at this signature. -/
def draftHeaderEd25519 : Ed25519 where
  VerifyingKey := Digest
  fromBytes := some
  verifyStrict key message signature := decide (key = sampleAuthorKey ∧
    (headerSigningTranscript draftHeader.bytes draftHeader.suite).map Transcript.asBytes = .ok message ∧
    signature = draftHeaderSignature)

/-- The imprint of the file after its first save. -/
def finalImprint : Digest :=
  ⟨[0xc3, 0xdf, 0x72, 0x4f, 0x91, 0x15, 0x6d, 0x2d, 0xad, 0x86, 0xb9, 0x35, 0xd4, 0x8d, 0x7c, 0xd1,
    0xa6, 0x43, 0x2b, 0xc2, 0xe2, 0x0f, 0xde, 0x58, 0xa9, 0x67, 0x4b, 0xb0, 0x3f, 0x8f, 0xb4, 0xb1], rfl⟩

/-- HMAC-SHA256 of its region with the offset of the footer. -/
def stampedCode : Digest :=
  ⟨[0x11, 0xc2, 0xd1, 0xd8, 0x57, 0x12, 0xe2, 0x17, 0x32, 0xcf, 0x8c, 0xdf, 0x1b, 0x03, 0x39, 0xa0,
    0xd8, 0xa1, 0x89, 0x02, 0xed, 0xf4, 0x46, 0x99, 0xc9, 0x7f, 0x39, 0x08, 0x6e, 0x6a, 0x4a, 0x3d], rfl⟩

/-- The functions at what is hashed of the file: the core of the header, the imprint, and the region with the offset
of the footer, which have lengths of their own. -/
def stampedSha : Sha2 where
  sha256 input :=
    match input.length with
    | 101 => finalImprint
    | 543 => draftCore
    | _ => lifeSha.sha256 input
  hmac key input := if input.length = 904 then stampedCode else lifeSha.hmac key input
  hkdf := lifeSha.hkdf

/-- A token. -/
def sampleFooter : Footer := ⟨[0x30, 0x03, 0x02, 0x01, 0x01]⟩

/-- The header is accepted, and says what the editors take from it. -/
theorem exists_draftHeader :
    ∃ parsed, Accepted draftHeaderEd25519 draftHeader.bytes draftHeaderSignature parsed ∧ sampleFile.Of parsed := by
  have hread : (Header.decode draftHeader.bytes).map (·.header) = .ok draftHeader := by decide +kernel
  obtain ⟨parsed, hparsed, hheader⟩ := Except.map_eq_ok_iff.mp hread
  have hsigned : SignedBy draftHeaderEd25519 draftHeader.authorKey draftHeader.suite draftHeader.bytes
      draftHeaderSignature := signedBy_iff.mpr (by decide +kernel)
  refine ⟨parsed, ⟨by decide +kernel, hparsed, ?_, ?_, ?_⟩, ?_, ?_, ?_, ?_⟩ <;> rw [hheader]
  · exact hsigned
  · decide
  · decide
  all_goals rfl

/-- The copy with the final text, and its region without a footer and with one. -/
theorem exists_finalArea :
    ∃ copy area area',
      [finalSave].foldlM (Copy.save stampedSha lifeBlake3 xChaCha20Poly1305 sampleFile) draftCopy = .ok copy ∧
        copy.payload.length = 55 ∧
        { copy.desc with footerOffset := none }.encode stampedSha sampleFile.macKey sampleFile.fileId
          sampleFile.containerVersion = .ok area ∧ area.length = 888 ∧
        { copy.desc with footerOffset := some 1863 }.encode stampedSha sampleFile.macKey sampleFile.fileId
          sampleFile.containerVersion = .ok area' ∧ area'.length = 902 := by
  have hsaved : ([finalSave].foldlM (Copy.save stampedSha lifeBlake3 xChaCha20Poly1305 sampleFile) draftCopy).map
      (fun copy ↦ (copy.payload.length,
        ({ copy.desc with footerOffset := none }.encode stampedSha sampleFile.macKey sampleFile.fileId
          sampleFile.containerVersion).map List.length,
        ({ copy.desc with footerOffset := some 1863 }.encode stampedSha sampleFile.macKey sampleFile.fileId
          sampleFile.containerVersion).map List.length)) = .ok (55, .ok 888, .ok 902) := by
    decide +kernel
  obtain ⟨copy, hcopy, hvalues⟩ := Except.map_eq_ok_iff.mp hsaved
  obtain ⟨hpayload, hareas⟩ := Prod.mk.inj hvalues
  obtain ⟨harea, harea'⟩ := Prod.mk.inj hareas
  obtain ⟨area, hencode, hlen⟩ := Except.map_eq_ok_iff.mp harea
  obtain ⟨area', hencode', hlen'⟩ := Except.map_eq_ok_iff.mp harea'
  exact ⟨copy, area, area', hcopy, hpayload, hencode, hlen, hencode', hlen'⟩

theorem length_draftPrologue : (assemble draftHeader.bytes draftHeaderSignature).length = 906 := by decide +kernel

theorem length_draftFile (area payload tail : List UInt8) :
    (fileBytes draftHeader.bytes draftHeaderSignature area payload tail).length =
      906 + area.length + (payload.length + tail.length) := by
  rw [fileBytes, List.length_append, List.length_append, List.length_append, length_draftPrologue]

/-- The token closes a file whose description and payload end where the offset says. -/
theorem exists_sampleTail {area payload : List UInt8} (h : area.length + payload.length = 957) :
    ∃ tail, tail.length = 11 ∧
      Closes (assemble draftHeader.bytes draftHeaderSignature ++ area ++ payload).length (some 1863)
        (some sampleFooter) tail := by
  have hfooter : sampleFooter.encode.map List.length = .ok 11 := by decide
  obtain ⟨tail, htail, hlen⟩ := Except.map_eq_ok_iff.mp hfooter
  refine ⟨tail, hlen, ?_⟩
  rw [List.length_append, List.length_append, length_draftPrologue, Nat.add_assoc, h]
  exact ⟨rfl, sampleFooter, htail, rfl⟩

/-- What is saved is the final text. -/
theorem content_finalSave :
    content (([finalSave].map Save.changes).foldl revise
      (drafts zeroRng () (pieces sampleFile.chunkSize.toNat draftText))) = finalText := by
  rw [pieces_of_le (by decide +kernel)]
  decide +kernel

/-- The final text with a token behind its frame. -/
theorem stamped_file_found_finalSave :
    ∃ copy area tail f,
      [finalSave].foldlM (Copy.save stampedSha lifeBlake3 xChaCha20Poly1305 sampleFile) draftCopy = .ok copy ∧
        Finds stampedSha lifeBlake3 xChaCha20Poly1305 draftHeaderEd25519 (fun _ _ ↦ .unknown) sampleFile.macKey
          sampleFile.key (fileBytes draftHeader.bytes draftHeaderSignature area copy.payload tail) f ∧
        f.content = finalText ∧ f.desc.versionCounter.toNat = 1 ∧ f.footer = some sampleFooter := by
  obtain ⟨parsed, hheader, hof⟩ := exists_draftHeader
  obtain ⟨copy, -, area, hsaves, hpayload, -, -, harea, hareaLen⟩ := exists_finalArea
  obtain ⟨src', hstream⟩ := sealChunks_draft stampedSha.sha256 stampedSha.hmac
  have hwhole : area.length + copy.payload.length = 957 := by rw [hareaLen, hpayload]
  obtain ⟨tail, htail, hcloses⟩ := exists_sampleTail hwhole
  have hlen : (fileBytes draftHeader.bytes draftHeaderSignature area copy.payload tail).length < 2 ^ 64 := by
    rw [length_draftFile, hareaLen, hpayload, htail]
    decide
  obtain ⟨⟨f, hfinds, -, -, -, hcounter, -, hread, hcontent⟩, -⟩ := stamped_file_found (fun _ _ ↦ .unknown)
    lawful_xChaCha20Poly1305 rfl (by decide) (delivers_listSource (ε := Empty) draftText) hstream hsaves hheader hof
    harea hcloses hlen
  exact ⟨copy, area, tail, f, hsaves, hfinds, hcontent.trans content_finalSave, hcounter, hread⟩

/-- The final text with and without a token: other bytes, one imprint, and the same chunks. -/
theorem imprint_pins_file_finalSave :
    ∃ file file' f f', Finds stampedSha lifeBlake3 xChaCha20Poly1305 draftHeaderEd25519 (fun _ _ ↦ .unknown)
        sampleFile.macKey sampleFile.key file f ∧
      Finds stampedSha lifeBlake3 xChaCha20Poly1305 draftHeaderEd25519 (fun _ _ ↦ .unknown) sampleFile.macKey
        sampleFile.key file' f' ∧
      file.length ≠ file'.length ∧ f.content = finalText ∧ f.imprint stampedSha = f'.imprint stampedSha ∧
      (f.Collide stampedSha lifeBlake3 f' ∨ f.chunks = f'.chunks) := by
  obtain ⟨parsed, hheader, hof⟩ := exists_draftHeader
  obtain ⟨copy, area, area', hsaves, hpayload, harea, hareaLen, harea', hareaLen'⟩ := exists_finalArea
  obtain ⟨src', hstream⟩ := sealChunks_draft stampedSha.sha256 stampedSha.hmac
  obtain ⟨chunks₀, hpacked⟩ := sealsWith_of_sealChunks lawful_xChaCha20Poly1305 rfl (by decide)
    (delivers_listSource (ε := Empty) draftText) hstream []
  obtain ⟨⟨chunks, hseals⟩, -⟩ := hpacked.saves lawful_xChaCha20Poly1305 hsaves
  have hreadable := Copy.editorReadable_of_saves lawful_xChaCha20Poly1305 (List.cons_ne_nil _ _) hsaves
  have hwhole : area'.length + copy.payload.length = 957 := by rw [hareaLen', hpayload]
  obtain ⟨tail, htail, hcloses'⟩ := exists_sampleTail hwhole
  have hcloses : Closes (assemble draftHeader.bytes draftHeaderSignature ++ area ++ copy.payload).length
      none none [] := ⟨rfl, rfl⟩
  have hlen : (fileBytes draftHeader.bytes draftHeaderSignature area copy.payload []).length = 1849 := by
    rw [length_draftFile, hareaLen, hpayload]
    rfl
  have hlen' : (fileBytes draftHeader.bytes draftHeaderSignature area' copy.payload tail).length = 1874 := by
    rw [length_draftFile, hareaLen', hpayload, htail]
  obtain ⟨f, hfinds, hparsed, hbytes, hdesc, hcontent, -⟩ := hseals.finds (fun _ _ ↦ .unknown)
    lawful_xChaCha20Poly1305 hheader hof hreadable harea hcloses (hlen.trans_lt (by decide))
  obtain ⟨f', hfinds', hparsed', hbytes', hdesc', -⟩ := hseals.finds (fun _ _ ↦ .unknown)
    lawful_xChaCha20Poly1305 hheader hof hreadable harea' hcloses' (hlen'.trans_lt (by decide))
  have hcore := hfinds.core
  have hcore' := hfinds'.core
  rw [hparsed, hbytes] at hcore
  rw [hparsed', hbytes'] at hcore'
  have himprint : f.imprint stampedSha = f'.imprint stampedSha := by
    rw [Found.imprint, Found.imprint, Except.ok.inj (hcore.symm.trans hcore'), hdesc, hdesc']
  refine ⟨_, _, f, f', hfinds, hfinds', fun heq ↦ ?_, hcontent.trans content_finalSave, himprint, ?_⟩
  · exact absurd (hlen.symm.trans (heq.trans hlen')) (by decide)
  · exact (imprint_pins_file hfinds hfinds' himprint).imp_right fun h ↦ h.2.2.2.2.2.1

end Sample

end OpenCrate.Engine
