import OpenCrate.Crypto.KeySchedule
import OpenCrate.Engine.Edit
import OpenCrate.Engine.Open
import OpenCrate.Format.LayoutReads

/-!
# The life of a file

A file is packed once and then saved any number of times. An editor keeps the frames it has not touched and
seals the others anew, and what it writes is the base of the next save. The writer of `edit` sees one save;
here is what a whole run of saves leaves.

What a save means is said on the document, a list of sheets, each a piece of plaintext with the seed it is
sealed under: a kept sheet stays, a written one is replaced (`revise`). A copy of the file **seals** a document
when its frames are the sheets sealed at their positions, under a description with their layout and root. A save
keeps this (`Copy.SealsWith.save`), so after every run the reader opens exactly the document that the run means,
and the nonces of all the frames that were ever written are known.
-/

namespace OpenCrate.Engine

open Crypto Format Edit
open Except (refuseIf okOr)

/-! ### Documents and copies -/

/-- A piece of the document, and the seed of the nonce it is sealed under. -/
structure Sheet where
  text : List UInt8
  seed : Nonce
  deriving DecidableEq

/-- The bytes of a document. -/
def content (doc : List Sheet) : List UInt8 := (doc.map Sheet.text).flatten

/-- What an editor does with the sheet at a position. -/
inductive Change where
  | keep
  | write (sheet : Sheet)

/-- What a change means. -/
def Change.apply (sheet : Sheet) : Change → Sheet
  | keep => sheet
  | write new => new

/-- An empty sheet, where there is none. -/
def Sheet.blank : Sheet := ⟨[], List.Vector.replicate nonceLen 0⟩

/-- The document after the changes. -/
def revise (doc : List Sheet) (changes : List Change) : List Sheet :=
  changes.zipIdx.map fun change ↦ change.1.apply (doc.getD change.2 .blank)

/-- The first document: the pieces of what is packed, with the seeds that the packer draws for them. -/
def drafts {γ : Type} (rng : Rng γ) : γ → List (List UInt8) → List Sheet
  | _, [] => []
  | g, piece :: pieces => ⟨piece, (rng.fillBytes g nonceLen).1⟩ :: drafts rng (rng.fillBytes g nonceLen).2 pieces

/-- A file as it lies with a reader: what the mutable region says, its bytes, and the frames. -/
structure Copy where
  desc : ContentDesc
  area : List UInt8
  payload : List UInt8

/-- What does not change in the life of a file. -/
structure EditedFile extends StreamCall where
  macKey : MacKey
  containerVersion : UInt16
  coreHash : Digest

/-- What an editor brings to a save. -/
structure Save where
  changes : List Change
  certifiedBy : List UInt8
  journalHead : Option JournalHead
  signature : List.Vector UInt8 Rsa.modulusLen

namespace Copy

/-- The frame at a position, where the layout of the description places it. -/
def frame? (call : StreamCall) (copy : Copy) (index : UInt32) : Option (List UInt8) := do
  let layout ← (Layout.new call.chunkSize copy.desc.chunkCount copy.desc.totalLen 0).toOption
  let (start, stop) ← (layout.ciphertextSpan index).toOption
  slice? copy.payload start.toNat stop.toNat

/-- The piece of a plan: a kept frame is copied from this same index. -/
def piece (call : StreamCall) (copy : Copy) (index : ℕ) : Change → Piece
  | .keep => .keep ((copy.frame? call (UInt32.ofNat index)).getD [])
  | .write sheet => .seal sheet.text sheet.seed

/-- The plan of a save on top of this copy. -/
def plan (file : EditedFile) (copy : Copy) (save : Save) : EditPlan where
  fileId := file.fileId
  aead := file.alg
  chunkSize := file.chunkSize
  containerVersion := file.containerVersion
  coreHash := file.coreHash
  baseCounter := copy.desc.versionCounter
  baseRoot := copy.desc.treeRoot
  certifiedBy := save.certifiedBy
  journalHead := save.journalHead
  pieces := save.changes.zipIdx.map fun change ↦ copy.piece file.toStreamCall change.2 change.1

section Saving

variable (sha : Sha2) (blake3 : List UInt8 → Digest) (c : XChaCha)

/-- Prepare, have it signed, finish. -/
def save (file : EditedFile) (copy : Copy) (save : Save) : Except EditWriteError Copy := do
  let unsigned ← prepare sha blake3 c file.key (copy.plan file save)
  let (desc, area, payload) ← finish sha unsigned save.signature file.macKey file.fileId
    file.containerVersion
  .ok ⟨desc, area, payload⟩

/-- The chunk is this sheet, sealed at the position. -/
def SealsAt (call : StreamCall) (index : ℕ) (sheet : Sheet) (chunk : Chunk) : Prop :=
  sealChunkHedged sha blake3 c call.key call.alg call.fileId (UInt32.ofNat index) sheet.seed sheet.text =
    .ok (chunk.nonce, chunk.framed, chunk.leaf)

/-- The copy seals the document: its frames are the sheets at their positions, they tile the layout of the
description, and its root is that of their tree. -/
structure SealsWith (call : StreamCall) (doc : List Sheet) (copy : Copy) (chunks : List Chunk) :
    Prop where
  payload : copy.payload = (chunks.map Chunk.frame).flatten
  length : chunks.length = doc.length
  sealed_at : ∀ i sheet chunk, doc[i]? = some sheet → chunks[i]? = some chunk →
    SealsAt sha blake3 c call i sheet chunk
  tiles : ∀ off, ∃ layout, Layout.new call.chunkSize copy.desc.chunkCount copy.desc.totalLen off = .ok layout ∧
    layout.Tiles (chunks.map Chunk.frame)
  root : ∃ tree, MerkleTree.build blake3 (chunks.map Chunk.leaf) = .ok tree ∧
    copy.desc.treeRoot = tree.root blake3

end Saving

section Reading

variable (blake3 : List UInt8 → Digest) (c : XChaCha)

/-- What a reader of the copy finds: the length, every chunk of the content where a layout places it, and a
root over the leaves it computes itself while it opens the chunks. -/
structure Reads (call : StreamCall) (content : List UInt8) (copy : Copy) : Prop where
  totalLen : copy.desc.totalLen.toNat = content.length
  chunks : ∀ off, ∃ layout, Layout.new call.chunkSize copy.desc.chunkCount copy.desc.totalLen off = .ok layout ∧
    ∀ index < copy.desc.chunkCount,
      ChunkOpens blake3 c call.key call.alg call.fileId content copy.payload layout index
  root : ∃ opened : List (Chunk × List UInt8),
    copy.payload = (opened.map fun o ↦ o.1.frame).flatten ∧ content = (opened.map Prod.snd).flatten ∧
    (∀ i o, opened[i]? = some o → openChunk blake3 c call.key call.alg call.fileId (UInt32.ofNat i) o.1.nonce
      o.1.framed call.chunkSize.toNat = .ok (o.2, o.1.leaf)) ∧
    ∃ tree, MerkleTree.build blake3 (opened.map fun o ↦ o.1.leaf) = .ok tree ∧
      copy.desc.treeRoot = tree.root blake3

end Reading

end Copy

/-! ### The layout of a copy -/

section Layouts

variable {sha : Sha2} {blake3 : List UInt8 → Digest} {c : XChaCha} {call : StreamCall}
  {doc : List Sheet} {copy : Copy} {chunks : List Chunk} {index : UInt32}

theorem toOption_eq_some_iff {ε α : Type} {x : Except ε α} {a : α} : x.toOption = some a ↔ x = .ok a := by
  cases x <;> simp [Except.toOption]

/-- A range is given only to a chunk of the file. -/
theorem lt_of_ciphertextSpan {layout : Layout} {span : UInt64 × UInt64}
    (h : layout.ciphertextSpan index = .ok span) : index < layout.chunkCount := by
  rw [Layout.ciphertextSpan, Except.bind_eq_ok_iff] at h
  obtain ⟨_, hlen, -⟩ := h
  exact Layout.lt_of_plaintextLenOf hlen

namespace Copy.SealsWith

/-- Every layout of the copy has its count and sizes, and its frames tile it. -/
theorem of_layout (h : SealsWith sha blake3 c call doc copy chunks) {off : UInt64} {layout : Layout}
    (hlayout : Layout.new call.chunkSize copy.desc.chunkCount copy.desc.totalLen off = .ok layout) :
    layout.Tiles (chunks.map Chunk.frame) ∧ layout.chunkSize = call.chunkSize ∧
      layout.chunkCount = copy.desc.chunkCount ∧ layout.totalLen = copy.desc.totalLen ∧
      layout.payloadOffset = off ∧
      copy.desc.chunkCount.toNat = pieceCount copy.desc.totalLen.toNat call.chunkSize.toNat := by
  obtain ⟨layout', hnew, htiles⟩ := h.tiles off
  obtain rfl := Except.ok.inj (hnew.symm.trans hlayout)
  obtain ⟨-, hcount, hsize, rfl⟩ := Layout.new_eq_ok_iff.mp hnew
  exact ⟨htiles, rfl, rfl, rfl, rfl, hcount⟩

/-- The description counts the sheets. -/
theorem chunkCount (h : SealsWith sha blake3 c call doc copy chunks) :
    copy.desc.chunkCount.toNat = doc.length := by
  obtain ⟨layout, hnew, htiles⟩ := h.tiles 0
  obtain ⟨-, -, hcount, -⟩ := h.of_layout hnew
  rw [← hcount, ← htiles.length_eq, List.length_map, h.length]

/-- The frame at a position is that of its chunk. -/
theorem getElem?_of_frame? (h : SealsWith sha blake3 c call doc copy chunks) {frame : List UInt8}
    (hframe : copy.frame? call index = some frame) :
    (chunks.map Chunk.frame)[index.toNat]? = some frame := by
  simp only [frame?, Option.bind_eq_bind, Option.bind_eq_some_iff, toOption_eq_some_iff,
    Prod.exists] at hframe
  obtain ⟨layout, hnew, start, stop, hspan, hslice⟩ := hframe
  obtain ⟨htiles, hsize, hcount, htotal, hoffset, hpieces⟩ := h.of_layout hnew
  have hindex : index < layout.chunkCount := lt_of_ciphertextSpan hspan
  obtain ⟨frame', hframe'⟩ : ∃ frame', (chunks.map Chunk.frame)[index.toNat]? = some frame' := by
    rw [UInt32.lt_iff_toNat_lt, ← htiles.length_eq] at hindex
    exact ⟨_, List.getElem?_eq_getElem hindex⟩
  obtain ⟨pos, hslice', hspan'⟩ := htiles.exists_span (by rw [hcount, htotal, hsize, hpieces]) hframe'
  obtain ⟨hstart, hstop⟩ := (hspan' start stop).mp hspan
  rw [hoffset] at hstart hstop
  rw [h.payload, hstart, hstop] at hslice
  simp only [UInt64.toNat_zero, Nat.zero_add] at hslice
  rw [hframe', ← hslice', hslice]

/-- A sheet has the length that the layout gives to its position. -/
theorem length_text (hc : c.Lawful) (h : SealsWith sha blake3 c call doc copy chunks) {i : ℕ}
    {sheet : Sheet} (hsheet : doc[i]? = some sheet) :
    sheet.text.length =
      min (copy.desc.totalLen.toNat - i * call.chunkSize.toNat) call.chunkSize.toNat := by
  obtain ⟨layout, hnew, htiles⟩ := h.tiles 0
  obtain ⟨-, hsize, -, htotal, -⟩ := h.of_layout hnew
  have hi := (List.getElem?_eq_some_iff.mp hsheet).1
  rw [← h.length] at hi
  have hsealed := h.sealed_at i sheet _ hsheet (List.getElem?_eq_getElem hi)
  have hframed := length_of_sealChunkHedged hc hsealed
  have hframe := htiles.length_frame i (chunks[i]).frame (by
    rw [List.getElem?_map, List.getElem?_eq_getElem hi]
    rfl)
  rw [Chunk.frame, List.length_append, List.Vector.toList_length, hframed, hsize, htotal] at hframe
  simp only [Crypto.nonceLen, Crypto.tagLen] at hframe
  omega

/-- The sheets before the last one are full. -/
theorem length_text_of_lt (hc : c.Lawful) (h : SealsWith sha blake3 c call doc copy chunks) (j : ℕ)
    (text : List UInt8) (hj : j + 1 < (doc.map Sheet.text).length)
    (htext : (doc.map Sheet.text)[j]? = some text) : text.length = call.chunkSize.toNat := by
  rw [List.getElem?_map, Option.map_eq_some_iff] at htext
  obtain ⟨sheet, hsheet, rfl⟩ := htext
  rw [List.length_map] at hj
  obtain ⟨layout, hnew, -⟩ := h.tiles 0
  obtain ⟨-, hsize, -, -, -, hpieces⟩ := h.of_layout hnew
  have hpos : 0 < call.chunkSize.toNat := by
    rw [← hsize]
    exact layout.chunkSize_pos
  have hbounds := (pieceCount_bounds copy.desc.totalLen.toNat hpos).1
  rw [← hpieces, h.chunkCount] at hbounds
  have hfull : (j + 1) * call.chunkSize.toNat ≤ copy.desc.totalLen.toNat :=
    le_trans (Nat.mul_le_mul_right _ (by omega)) hbounds
  rw [Nat.succ_mul] at hfull
  rw [h.length_text hc hsheet]
  omega

/-- A frame is longer than its sheet by a nonce and a tag. -/
theorem length_frames (hc : c.Lawful) (h : SealsWith sha blake3 c call doc copy chunks) :
    chunks.map (fun chunk ↦ chunk.frame.length) = doc.map fun sheet ↦ sheet.text.length + 40 := by
  refine List.ext_getElem? fun i ↦ ?_
  rw [List.getElem?_map, List.getElem?_map]
  rcases Nat.lt_or_ge i doc.length with hi | hi
  · have hi' : i < chunks.length := h.length ▸ hi
    have hsealed := h.sealed_at i _ _ (List.getElem?_eq_getElem hi) (List.getElem?_eq_getElem hi')
    have hframed := length_of_sealChunkHedged hc hsealed
    rw [List.getElem?_eq_getElem hi, List.getElem?_eq_getElem hi', Option.map_some, Option.map_some,
      Chunk.frame, List.length_append, List.Vector.toList_length, hframed]
    simp only [Crypto.nonceLen, Crypto.tagLen, Option.some_inj]
    omega
  · rw [List.getElem?_eq_none hi, List.getElem?_eq_none (h.length ▸ hi)]
    rfl

/-- The description counts the bytes of the document. -/
theorem totalLen (hc : c.Lawful) (h : SealsWith sha blake3 c call doc copy chunks) :
    copy.desc.totalLen.toNat = (content doc).length := by
  obtain ⟨layout, hnew, htiles⟩ := h.tiles 0
  obtain ⟨-, hsize, hcount, htotal, -, hpieces⟩ := h.of_layout hnew
  have hflatten := htiles.length_flatten (by rw [hcount, htotal, hsize, hpieces])
  rw [hcount, htotal, h.chunkCount, List.length_flatten, List.map_map] at hflatten
  have hsum : (chunks.map (List.length ∘ Chunk.frame)).sum = (content doc).length + doc.length * 40 := by
    rw [show List.length ∘ Chunk.frame = fun chunk ↦ chunk.frame.length from rfl, h.length_frames hc,
      List.sum_map_add, List.map_const', List.sum_replicate_nat, content, List.length_flatten, List.map_map]
    rfl
  omega

/-- A sheet opens from its frame. -/
theorem openChunk (hc : c.Lawful) (h : SealsWith sha blake3 c call doc copy chunks) {i : ℕ}
    {sheet : Sheet} {chunk : Chunk} (hsheet : doc[i]? = some sheet) (hchunk : chunks[i]? = some chunk)
    {capacity : ℕ} (hcapacity : sheet.text.length ≤ capacity) :
    Crypto.openChunk blake3 c call.key call.alg call.fileId (UInt32.ofNat i) chunk.nonce chunk.framed capacity =
      .ok (sheet.text, chunk.leaf) :=
  openChunk_of_sealChunkHedged hc hcapacity (h.sealed_at i sheet chunk hsheet hchunk)

/-- The bytes of the document at a position are the sheet there. -/
theorem take_drop_content (hc : c.Lawful) (h : SealsWith sha blake3 c call doc copy chunks) {i : ℕ}
    {sheet : Sheet} (hsheet : doc[i]? = some sheet) :
    ((content doc).drop (i * call.chunkSize.toNat)).take sheet.text.length = sheet.text := by
  have htext : (doc.map Sheet.text)[i]? = some sheet.text := by
    rw [List.getElem?_map, hsheet]
    rfl
  have hslice := slice?_flatten_of_tiling (h.length_text_of_lt hc) htext
  have hpart := (slice?_eq_some_iff.mp hslice).2.2
  rwa [Nat.add_sub_cancel_left] at hpart

/-- A chunk stands where a layout places it, and opens to the bytes of the document at its position. -/
theorem chunkOpens (hc : c.Lawful) (h : SealsWith sha blake3 c call doc copy chunks) {off : UInt64}
    {layout : Layout}
    (hnew : Layout.new call.chunkSize copy.desc.chunkCount copy.desc.totalLen off = .ok layout)
    (hindex : index < copy.desc.chunkCount) :
    ChunkOpens blake3 c call.key call.alg call.fileId (content doc) copy.payload layout index := by
  obtain ⟨htiles, hsize, hcount, htotal, -, hpieces⟩ := h.of_layout hnew
  rw [← hcount] at hindex
  obtain ⟨len, hlen, hnat⟩ := Layout.plaintextLenOf_eq_ok hindex
  have hi : index.toNat < doc.length := by
    rw [← h.chunkCount, ← hcount]
    exact UInt32.lt_iff_toNat_lt.mp hindex
  obtain ⟨sheet, hsheet⟩ : ∃ sheet, doc[index.toNat]? = some sheet := ⟨_, List.getElem?_eq_getElem hi⟩
  obtain ⟨chunk, hchunk⟩ : ∃ chunk, chunks[index.toNat]? = some chunk :=
    ⟨_, List.getElem?_eq_getElem (h.length ▸ hi)⟩
  have hframe : (chunks.map Chunk.frame)[index.toNat]? = some chunk.frame := by
    rw [List.getElem?_map, hchunk]
    rfl
  have hlength : sheet.text.length = len.toNat := by
    rw [h.length_text hc hsheet, hnat, hsize, htotal]
  have hframeLen : chunk.frame.length = 24 + len.toNat + 16 := by
    rw [htiles.length_frame _ _ hframe, hnat]
    omega
  -- the frames tile the payload, so this one is found at its place
  obtain ⟨pos, hslice, hspan⟩ := htiles.exists_span (by rw [hcount, htotal, hsize, hpieces]) hframe
  refine ⟨len, chunk.nonce, chunk.framed, chunk.leaf, pos, hlen, ?_, ?_, ?_⟩
  · rw [← hframeLen, h.payload]
    exact hslice
  · rw [← hframeLen]
    exact hspan
  · rw [hsize, ← hlength, h.take_drop_content hc hsheet]
    have hopen := h.openChunk hc hsheet hchunk le_rfl
    rwa [UInt32.ofNat_toNat] at hopen

/-- **A copy that seals a document reads as that document.** -/
theorem reads (hc : c.Lawful) (h : SealsWith sha blake3 c call doc copy chunks) :
    Copy.Reads blake3 c call (content doc) copy := by
  refine ⟨h.totalLen hc, fun off ↦ ?_, ?_⟩
  · obtain ⟨layout, hnew, -⟩ := h.tiles off
    exact ⟨layout, hnew, fun index hindex ↦ h.chunkOpens hc hnew hindex⟩
  · refine ⟨chunks.zip (doc.map Sheet.text), ?_, ?_, ?_, ?_⟩
    · rw [h.payload, show (fun o : Chunk × List UInt8 ↦ o.1.frame) = Chunk.frame ∘ Prod.fst from rfl,
        ← List.map_map, List.map_fst_zip (by rw [h.length, List.length_map])]
    · rw [List.map_snd_zip (by rw [h.length, List.length_map]), content]
    · intro i o ho
      obtain ⟨hchunk, htext⟩ := List.getElem?_zip_eq_some.mp ho
      rw [List.getElem?_map, Option.map_eq_some_iff] at htext
      obtain ⟨sheet, hsheet, htext⟩ := htext
      rw [← htext]
      refine h.openChunk hc hsheet hchunk ?_
      rw [h.length_text hc hsheet]
      exact Nat.min_le_right _ _
    · rw [show (fun o : Chunk × List UInt8 ↦ o.1.leaf) = Chunk.leaf ∘ Prod.fst from rfl, ← List.map_map,
        List.map_fst_zip (by rw [h.length, List.length_map])]
      exact h.root

end Copy.SealsWith

end Layouts

/-! ### One save -/

section Saves

variable {sha : Sha2} {blake3 : List UInt8 → Digest} {c : XChaCha} {file : EditedFile}
  {doc : List Sheet} {copy copy' : Copy} {chunks : List Chunk} {s : Save}

/-- The writer counts the pieces of its plan. -/
theorem chunkCount_of_prepare {key : PayloadKey} {plan : EditPlan} {u : Unsigned}
    (h : prepare sha blake3 c key plan = .ok u) : u.desc.chunkCount.toNat = plan.pieces.length := by
  simp only [prepare, Except.bind_eq_ok_iff, Except.okOr_eq_ok_iff, UInt32.tryFrom_eq_some_iff,
    Except.ok.injEq] at h
  obtain ⟨_, -, _, -, _, -, _, -, count, hcount, -, -, _, -, _, -, rfl⟩ := h
  exact hcount

/-- Two chunks with one frame and with the leaves of that frame at one position are the same chunk. -/
theorem eq_of_frame_eq {index : UInt32} {chunk chunk' : Chunk} (hframe : chunk.frame = chunk'.frame)
    (hleaf : LeafOf blake3 index chunk) (hleaf' : LeafOf blake3 index chunk') : chunk = chunk' := by
  obtain ⟨nonce, framed, leaf⟩ := chunk
  obtain ⟨nonce', framed', leaf'⟩ := chunk'
  obtain ⟨ct, tag, hsplit, hvalue⟩ := hleaf
  obtain ⟨ct', tag', hsplit', hvalue'⟩ := hleaf'
  obtain ⟨hnonce, hframed⟩ :=
    List.append_inj hframe (nonce.toList_length.trans nonce'.toList_length.symm)
  obtain rfl : nonce = nonce' := List.Vector.toList_injective hnonce
  have hframed : framed = framed' := hframed
  subst hframed
  obtain ⟨rfl, htag⟩ : ct = ct' ∧ tag.toList = tag'.toList :=
    List.append_inj' (hsplit.symm.trans hsplit') (tag.toList_length.trans tag'.toList_length.symm)
  obtain rfl : tag = tag' := List.Vector.toList_injective htag
  have hleaf : leaf = leaf' := hvalue.trans hvalue'.symm
  rw [hleaf]

/-- The leaf of a sealed chunk is that of its frame. -/
theorem Copy.SealsAt.leafOf {call : StreamCall} {index : ℕ} {sheet : Sheet} {chunk : Chunk}
    (h : SealsAt sha blake3 c call index sheet chunk) : LeafOf blake3 (UInt32.ofNat index) chunk :=
  (sealChunkHedged_eq_ok_iff.mp h).2.2.2

/-- Signing keeps the count. -/
theorem chunkCount_of_finish {u : Unsigned} {signature : List.Vector UInt8 Rsa.modulusLen} {macKey : MacKey}
    {fileId : List.Vector UInt8 16} {version : UInt16} {desc : ContentDesc} {area payload : List UInt8}
    (h : finish sha u signature macKey fileId version = .ok (desc, area, payload)) :
    desc.chunkCount = u.desc.chunkCount := by
  simp only [finish, Except.bind_eq_ok_iff, Except.ok.injEq, Prod.mk.injEq] at h
  obtain ⟨_, -, rfl, -⟩ := h
  rfl

/-- The sheet of the revised document at a position. -/
theorem getElem?_revise {changes : List Change} {i : ℕ} :
    (revise doc changes)[i]? = changes[i]?.map fun change ↦ change.apply (doc.getD i .blank) := by
  rw [revise, List.getElem?_map, List.getElem?_zipIdx, Option.map_map, Nat.zero_add]
  rfl

/-- The piece of the plan at a position. -/
theorem Copy.getElem?_pieces {changes : List Change} {i : ℕ} :
    (changes.zipIdx.map fun change ↦ copy.piece file.toStreamCall change.2 change.1)[i]? =
      changes[i]?.map (copy.piece file.toStreamCall i) := by
  rw [List.getElem?_map, List.getElem?_zipIdx, Option.map_map, Nat.zero_add]
  rfl

/-- The chunk that a change becomes seals what the change means. -/
theorem Copy.SealsWith.sealsAt_of_chunkOf (h : SealsWith sha blake3 c file.toStreamCall doc copy chunks)
    {i : ℕ} {change : Change} {chunk : Chunk} (hi : i < 2 ^ 32)
    (hof : ChunkOf sha blake3 c file.key (copy.plan file s) (UInt32.ofNat i)
      (copy.piece file.toStreamCall i change) chunk)
    (hleaf : LeafOf blake3 (UInt32.ofNat i) chunk) :
    SealsAt sha blake3 c file.toStreamCall i (change.apply (doc.getD i .blank)) chunk := by
  cases change with
  | write sheet => exact hof
  | keep =>
    have hframe : chunk.frame = (copy.frame? file.toStreamCall (UInt32.ofNat i)).getD [] := hof
    have hlong := hleaf.length_le
    rcases hold : copy.frame? file.toStreamCall (UInt32.ofNat i) with - | frame
    · rw [hframe, hold] at hlong
      exact absurd hlong (by decide)
    · -- the kept frame is that of the old chunk at this index, and so is its leaf
      have hget := h.getElem?_of_frame? hold
      rw [UInt32.toNat_ofNat_of_lt' hi, List.getElem?_map, Option.map_eq_some_iff] at hget
      obtain ⟨old, hchunk, rfl⟩ := hget
      have hlt := (List.getElem?_eq_some_iff.mp hchunk).1
      rw [h.length] at hlt
      have hseal := h.sealed_at i _ old (List.getElem?_eq_getElem hlt) hchunk
      rw [hold] at hframe
      obtain rfl : chunk = old := eq_of_frame_eq hframe hleaf hseal.leafOf
      rw [List.getD_eq_getElem?_getD, List.getElem?_eq_getElem hlt, Option.getD_some]
      exact hseal

/-- **One save** seals the revised document, counts up by one, and its region is read back. -/
theorem Copy.SealsWith.save (hc : c.Lawful)
    (h : SealsWith sha blake3 c file.toStreamCall doc copy chunks)
    (hsave : copy.save sha blake3 c file s = .ok copy') :
    (∃ chunks', SealsWith sha blake3 c file.toStreamCall (revise doc s.changes) copy' chunks') ∧
      copy'.desc.versionCounter.toNat = copy.desc.versionCounter.toNat + 1 ∧
      ∃ body, ContentDesc.decodeVerifiedWithBody sha (copy'.area ++ copy'.payload) file.macKey file.fileId
        file.containerVersion = .ok (copy'.desc, body, copy'.area.length) := by
  simp only [Copy.save, Except.bind_eq_ok_iff, Prod.exists, Except.ok.injEq] at hsave
  obtain ⟨u, hprepare, desc, area, payload, hfinish, rfl⟩ := hsave
  obtain ⟨⟨body, hread, -⟩, -, -, hcounter, -, -, chunks', hpayload, hrevision⟩ :=
    exists_of_finish hc hprepare hfinish
  refine ⟨⟨chunks', ?_⟩, hcounter, body, hread⟩
  have hcount : desc.chunkCount.toNat = s.changes.length := by
    rw [chunkCount_of_finish hfinish, chunkCount_of_prepare hprepare, Copy.plan, List.length_map,
      List.length_zipIdx]
  have hlength : chunks'.length = s.changes.length := by
    rw [hrevision.length, Copy.plan, List.length_map, List.length_zipIdx]
  refine ⟨hpayload, ?_, ?_, hrevision.tiles, hrevision.root⟩
  · rw [hlength, revise, List.length_map, List.length_zipIdx]
  · intro i sheet chunk hsheet hchunk
    rw [getElem?_revise, Option.map_eq_some_iff] at hsheet
    obtain ⟨change, hchange, rfl⟩ := hsheet
    have hi : i < 2 ^ 32 := by
      have hlt := (List.getElem?_eq_some_iff.mp hchange).1
      rw [← hcount] at hlt
      exact hlt.trans desc.chunkCount.toNat_lt
    obtain ⟨chunk', hchunk', hof, hleaf⟩ := hrevision.chunkOf i (copy.piece file.toStreamCall i change) (by
      rw [Copy.plan, Copy.getElem?_pieces, hchange]
      rfl)
    obtain rfl := Option.some_inj.mp (hchunk.symm.trans hchunk')
    exact h.sealsAt_of_chunkOf hi hof hleaf

/-- **A run of saves** seals what it means, and counts itself. -/
theorem Copy.SealsWith.saves (hc : c.Lawful) {saves : List Save}
    (h : SealsWith sha blake3 c file.toStreamCall doc copy chunks)
    (hsaves : saves.foldlM (Copy.save sha blake3 c file) copy = .ok copy') :
    (∃ chunks', SealsWith sha blake3 c file.toStreamCall ((saves.map Save.changes).foldl revise doc) copy'
      chunks') ∧
      copy'.desc.versionCounter.toNat = copy.desc.versionCounter.toNat + saves.length ∧
      (saves ≠ [] → ∃ body, ContentDesc.decodeVerifiedWithBody sha (copy'.area ++ copy'.payload) file.macKey
        file.fileId file.containerVersion = .ok (copy'.desc, body, copy'.area.length)) := by
  -- by induction on the saves: one save seals the revised text, and counts up
  induction saves generalizing copy doc chunks with
  | nil =>
    obtain rfl := Except.ok.inj hsaves
    exact ⟨⟨chunks, h⟩, rfl, fun hne ↦ absurd rfl hne⟩
  | cons s saves ih =>
    rw [List.foldlM_cons] at hsaves
    obtain ⟨mid, hsave, hrest⟩ := Except.bind_eq_ok_iff.mp hsaves
    obtain ⟨⟨chunks₁, h₁⟩, hcounter₁, hread₁⟩ := h.save hc hsave
    obtain ⟨hseals, hcounter, hread⟩ := ih h₁ hrest
    refine ⟨hseals, by rw [hcounter, hcounter₁, List.length_cons]; omega, fun _ ↦ ?_⟩
    -- the last save leaves the description behind that is read
    rcases saves with - | ⟨s', saves⟩
    · obtain rfl := Except.ok.inj hrest
      exact hread₁
    · exact hread (List.cons_ne_nil _ _)

end Saves

/-! ### From the packed file on -/

section Packed

variable {γ σ ε : Type} {sha : Sha2} {blake3 : List UInt8 → Digest} {c : XChaCha} {file : EditedFile}
  {rng : Rng γ} {source : Source ε σ} {src src' : σ} {plain payload area : List UInt8} {d d' : γ}
  {sealed : Sealed}

/-- The copy of a file that was just packed. -/
def packedCopy (sealed : Sealed) (area payload : List UInt8) : Copy :=
  ⟨SealedInfo.contentDesc ⟨sealed.totalLen, sealed.chunkCount, sealed.treeRoot⟩, area, payload⟩

/-- Drawing seeds keeps the texts. -/
theorem map_text_drafts (rng : Rng γ) (g : γ) (parts : List (List UInt8)) :
    (drafts rng g parts).map Sheet.text = parts := by
  induction parts generalizing g with
  | nil => rfl
  | cons part parts ih => rw [drafts, List.map_cons, ih]

/-- The packer seals its drafts. -/
theorem sealsAt_of_sealPieces {call : StreamCall} {parts : List (List UInt8)} {index : ℕ} {g g' : γ}
    {chunks : List Chunk} (h : sealPieces sha blake3 c call rng index g parts = .ok (chunks, g')) :
    ∀ i sheet chunk, (drafts rng g parts)[i]? = some sheet → chunks[i]? = some chunk →
      Copy.SealsAt sha blake3 c call (index + i) sheet chunk := by
  -- the generator moves on from piece to piece, as it does for the drafts
  induction parts generalizing index g chunks with
  | nil => exact fun i sheet chunk hsheet ↦ absurd hsheet (by simp [drafts])
  | cons part parts ih =>
    simp only [sealPieces, Except.bind_eq_ok_iff, Prod.exists, Except.ok.injEq, Prod.mk.injEq] at h
    obtain ⟨nonce, framed, leaf, hseal, rest, g₁, hrest, rfl, rfl⟩ := h
    intro i sheet chunk hsheet hchunk
    rcases i with - | i
    · obtain rfl := Option.some_inj.mp hsheet
      obtain rfl := Option.some_inj.mp hchunk
      exact hseal
    · have hnext := ih hrest i sheet chunk hsheet hchunk
      rwa [Nat.succ_add_eq_add_succ] at hnext

/-- **What is packed seals its drafts.** -/
theorem sealsWith_of_sealChunks (hc : c.Lawful) (halg : file.alg.ensureSupported = .ok ())
    (hsize : checkChunkSize file.chunkSize = .ok file.chunkSize) (hplain : Delivers source src plain)
    (hstream : sealChunks sha blake3 c file.toStreamCall rng source collect ⟨src, [], d⟩ =
      .ok (sealed, ⟨src', payload, d'⟩)) (area : List UInt8) :
    ∃ chunks, Copy.SealsWith sha blake3 c file.toStreamCall
      (drafts rng d (pieces file.chunkSize.toNat plain)) (packedCopy sealed area payload) chunks := by
  have hpos : 0 < file.chunkSize.toNat :=
    lt_of_lt_of_le (by decide) (Layout.toNat_chunkSize_bounds hsize).2.1
  have hnonzero : file.chunkSize ≠ 0 := by
    intro hzero
    rw [hzero] at hpos
    exact lt_irrefl _ hpos
  have hfew : pieceCount plain.length file.chunkSize.toNat < 2 ^ 32 := by
    by_contra hmany
    rw [sealChunks_tooLarge sha blake3 rng hc halg hpos hplain (not_lt.mp hmany)] at hstream
    cases hstream
  obtain ⟨chunks, sealed₀, _, _, tree, hpieces, hok, hbuild, hroot, htotal, hcount⟩ :=
    sealChunks_of_delivers sha blake3 rng hc halg hpos (g := d) hplain hfew
  rw [hok] at hstream
  obtain ⟨rfl, ⟨⟩⟩ := Prod.mk.inj (Except.ok.inj hstream)
  have hlength := (getElem?_of_sealPieces hpieces).1
  refine ⟨chunks, rfl, ?_, ?_, ?_, tree, hbuild, hroot⟩
  · rw [hlength, ← List.length_map (Sheet.text), map_text_drafts]
  · intro i sheet chunk hsheet hchunk
    have hsealed := sealsAt_of_sealPieces hpieces i sheet chunk hsheet hchunk
    rwa [Nat.zero_add] at hsealed
  · intro off
    exact ⟨_, Layout.new_eq_ok_iff.mpr ⟨hsize, by rw [← htotal] at hcount; exact hcount, hnonzero, rfl⟩,
      (written_of_sealPieces hpos hpieces).tiles hc rfl htotal hcount⟩

/-- **A file reads as what was packed and saved**, after every run of saves: the reader opens the document that
the saves mean, the counter has counted them, and the region is read back. -/
theorem saved_file_reads (hc : c.Lawful) (halg : file.alg.ensureSupported = .ok ())
    (hsize : checkChunkSize file.chunkSize = .ok file.chunkSize) (hplain : Delivers source src plain)
    (hstream : sealChunks sha blake3 c file.toStreamCall rng source collect ⟨src, [], d⟩ =
      .ok (sealed, ⟨src', payload, d'⟩)) {saves : List Save} {copy : Copy}
    (hsaves : saves.foldlM (Copy.save sha blake3 c file) (packedCopy sealed area payload) = .ok copy) :
    Copy.Reads blake3 c file.toStreamCall (content ((saves.map Save.changes).foldl revise
        (drafts rng d (pieces file.chunkSize.toNat plain)))) copy ∧
      copy.desc.versionCounter.toNat = saves.length ∧
      (saves ≠ [] → ∃ body, ContentDesc.decodeVerifiedWithBody sha (copy.area ++ copy.payload) file.macKey
        file.fileId file.containerVersion = .ok (copy.desc, body, copy.area.length)) := by
  obtain ⟨chunks, hpacked⟩ := sealsWith_of_sealChunks hc halg hsize hplain hstream area
  obtain ⟨⟨chunks', hseals⟩, hcounter, hread⟩ := hpacked.saves hc hsaves
  exact ⟨hseals.reads hc, hcounter.trans (Nat.zero_add _), hread⟩

/-- What is packed, and what is written instead. -/
def draftText : List UInt8 := utf8 "A draft."

def otherText : List UInt8 := utf8 "Another draft."

def finalText : List UInt8 := utf8 "The final text."

/-- SHA-256 of the core of its header. -/
def draftCore : Digest :=
  ⟨[0x15, 0x94, 0xa9, 0x2e, 0x28, 0xbc, 0x64, 0xf3, 0x39, 0x96, 0x39, 0x5f, 0xf1, 0xf4, 0x60, 0xb1,
    0xb3, 0x3f, 0x99, 0x1a, 0x6f, 0xe8, 0x79, 0x55, 0x82, 0x05, 0x02, 0x3d, 0x1d, 0x30, 0xef, 0xb7], rfl⟩

/-- A file of one chunk under the call of `zeroCall`, as its editors have it. -/
def sampleFile : EditedFile :=
  { zeroCall with
    macKey := ⟨List.Vector.replicate 32 0⟩
    containerVersion := 5
    coreHash := draftCore }

/-- A certificate for the test key on another device. -/
def secondCert : EditorCert :=
  { sampleCert with
    device := List.Vector.replicate 32 0xdf
    signature :=
      ⟨[0x35, 0x7b, 0x50, 0x4e, 0xf4, 0xd1, 0xde, 0xdd, 0xd8, 0x07, 0x50, 0xc2, 0x83, 0xfa, 0xa0, 0x36,
        0xdd, 0x7c, 0xea, 0x84, 0xef, 0xc1, 0x25, 0x38, 0xc5, 0xfa, 0x3f, 0x7d, 0x7e, 0xb4, 0x4d, 0xb5,
        0x7a, 0xfd, 0x5b, 0x44, 0x9e, 0xb0, 0xca, 0xf5, 0x8e, 0xe5, 0xcd, 0xdc, 0x5c, 0x04, 0x95, 0x5b,
        0x09, 0xe0, 0xc6, 0x0d, 0xc7, 0x63, 0x8e, 0x1e, 0xc3, 0xd3, 0x7c, 0x62, 0x01, 0x1c, 0x2a, 0x02],
        rfl⟩ }

/-- The only chunk is written anew, under the seed of a generator that was rolled back. The writer takes whatever
signature it is given. -/
def typing (text : List UInt8) (cert : EditorCert) : Save :=
  ⟨[.write ⟨text, List.Vector.replicate nonceLen 0⟩], cert.encode.toOption.getD [], none,
    List.Vector.replicate Rsa.modulusLen 0⟩

/-- The saves of the editor. -/
def otherSave : Save := typing otherText sampleCert

def finalSave : Save := typing finalText sampleCert

/-- The nonces of the three texts, for the zero seed. -/
def draftNonce : List UInt8 :=
  [0x9c, 0xdd, 0xb1, 0x66, 0x58, 0x78, 0xfe, 0x8c, 0x12, 0xba, 0xc8, 0x7e, 0x7a, 0xd6, 0xce, 0xf3,
    0x39, 0xb1, 0xc2, 0xc4, 0x1d, 0x1b, 0xde, 0x41]

def otherNonce : List UInt8 :=
  [0x94, 0x45, 0x18, 0xfa, 0x87, 0x4e, 0xd4, 0x6b, 0xab, 0x57, 0x65, 0x64, 0xa2, 0xd7, 0x1a, 0xcc,
    0x9f, 0x00, 0x74, 0x00, 0x1f, 0xde, 0xb7, 0x56]

def finalNonce : List UInt8 :=
  [0x1f, 0x04, 0x29, 0x71, 0xab, 0xb5, 0xd3, 0x4e, 0x8d, 0x97, 0x3e, 0xe9, 0xd3, 0xfb, 0x0c, 0xb4,
    0xab, 0xa1, 0xef, 0x9a, 0x3c, 0xb8, 0x87, 0x46]

/-- Their leaves. -/
def draftLeaf : Digest :=
  ⟨[0xc7, 0x30, 0xe2, 0x1a, 0xb9, 0x29, 0xef, 0x99, 0xdc, 0xa7, 0x42, 0x4d, 0xb0, 0xae, 0x42, 0x9b,
    0xba, 0x33, 0xbb, 0x68, 0x85, 0x38, 0x1f, 0x93, 0xd9, 0x2f, 0x0d, 0xe1, 0xac, 0x8a, 0x02, 0x5e], rfl⟩

def otherLeaf : Digest :=
  ⟨[0x30, 0x89, 0xff, 0x5f, 0x2b, 0xb5, 0x43, 0x77, 0xc8, 0xec, 0x49, 0xe8, 0xbf, 0x91, 0xd1, 0x18,
    0x25, 0x95, 0x57, 0xcf, 0x34, 0x46, 0x7c, 0xbe, 0xe7, 0xb6, 0x4a, 0x99, 0x25, 0x85, 0x14, 0x46], rfl⟩

def finalLeaf : Digest :=
  ⟨[0x55, 0xf6, 0xd2, 0x0d, 0x9a, 0x84, 0x1a, 0xdd, 0x4f, 0x5c, 0xf9, 0x9f, 0xcc, 0x88, 0x18, 0x32,
    0x53, 0xd8, 0x64, 0x70, 0x42, 0xf7, 0xa7, 0x40, 0x5f, 0x0a, 0x03, 0x85, 0x10, 0x9d, 0xba, 0xcf], rfl⟩

/-- The roots over them. -/
def draftRoot : Digest :=
  ⟨[0x80, 0x73, 0x2e, 0xa7, 0xa2, 0x0b, 0x61, 0xbf, 0xb2, 0x07, 0xae, 0x79, 0x10, 0x72, 0xec, 0x04,
    0xf9, 0x8a, 0xa3, 0x67, 0x6a, 0xf9, 0xe7, 0x75, 0xcb, 0x44, 0x3c, 0x09, 0x3e, 0x7e, 0x01, 0x69], rfl⟩

def otherRoot : Digest :=
  ⟨[0xff, 0x41, 0xd8, 0x4a, 0xfe, 0x6d, 0xf3, 0xc5, 0x46, 0x22, 0xa9, 0xe2, 0x55, 0x5d, 0xb3, 0x36,
    0x7d, 0x97, 0x2b, 0x56, 0x8e, 0x33, 0x37, 0x28, 0xd5, 0x1e, 0xb3, 0x76, 0xb4, 0xe3, 0xcc, 0x14], rfl⟩

def finalRoot : Digest :=
  ⟨[0xe0, 0x66, 0xeb, 0xe6, 0x8d, 0x26, 0x48, 0x4e, 0x05, 0x36, 0x94, 0x6a, 0x71, 0x62, 0x51, 0x9d,
    0xdd, 0x65, 0xc5, 0xcc, 0xf9, 0xfa, 0x0a, 0xf3, 0x8e, 0x64, 0xff, 0x4e, 0xc5, 0x88, 0xd0, 0xa3], rfl⟩

/-- What a session starts from on top of the packed file, and on top of the other draft. -/
def draftStart : Digest :=
  ⟨[0xdb, 0x76, 0xa1, 0x53, 0x0d, 0xac, 0xc4, 0xb5, 0x46, 0x7e, 0x1b, 0xe1, 0xbd, 0x7d, 0x7f, 0xd2,
    0x5f, 0xba, 0x62, 0x4a, 0x69, 0x76, 0xc8, 0xc3, 0x6e, 0x59, 0xe7, 0xa8, 0x4f, 0x3c, 0xb1, 0x2d], rfl⟩

def otherStart : Digest :=
  ⟨[0xf1, 0x94, 0xfc, 0x5f, 0x2b, 0x52, 0x7e, 0x9a, 0x81, 0xb6, 0xee, 0x37, 0x24, 0xb5, 0x65, 0xcb,
    0x92, 0x6f, 0xfe, 0x28, 0x85, 0x0f, 0x07, 0x93, 0x0c, 0x76, 0x25, 0xbb, 0xe8, 0x7d, 0x41, 0xea], rfl⟩

/-- The heads of the sessions: the other draft, the final text in its place, and the final text after it, in a session
of its own and in the same one. -/
def otherHead : Digest :=
  ⟨[0x4c, 0x26, 0x38, 0xc5, 0xaf, 0xf1, 0xc7, 0xb2, 0x98, 0xc9, 0x01, 0x36, 0xc0, 0x9c, 0xd4, 0xda,
    0x5f, 0x20, 0x04, 0x79, 0x5f, 0xdf, 0xdf, 0x21, 0x4c, 0x67, 0x62, 0x84, 0x05, 0x2f, 0xde, 0x79], rfl⟩

def finalHead : Digest :=
  ⟨[0x8e, 0xda, 0xfe, 0xd4, 0x1a, 0xa9, 0xc0, 0x5c, 0x3b, 0x07, 0x26, 0xaf, 0x63, 0x66, 0xd3, 0x5a,
    0xaf, 0x33, 0x8d, 0xd5, 0xa3, 0xfd, 0xae, 0x9e, 0x61, 0x98, 0xd5, 0x3d, 0x16, 0xbe, 0xde, 0xe1], rfl⟩

def secondHead : Digest :=
  ⟨[0x8d, 0x68, 0xaa, 0xfd, 0x0d, 0xfe, 0x39, 0xcf, 0x0a, 0x5d, 0xb8, 0x31, 0xa9, 0x38, 0x42, 0x6e,
    0x46, 0xdf, 0x51, 0x90, 0x70, 0xd6, 0xd0, 0x14, 0xd4, 0x3a, 0x6f, 0xcd, 0x64, 0xf3, 0xc1, 0xad], rfl⟩

def longHead : Digest :=
  ⟨[0x6e, 0x1b, 0x8a, 0x43, 0x6e, 0xc2, 0x79, 0xdb, 0x6c, 0x3e, 0xc7, 0xea, 0x73, 0xc6, 0xd6, 0xb4,
    0x36, 0xa0, 0x33, 0x73, 0x74, 0x5e, 0xa7, 0x8b, 0xd0, 0xc0, 0x74, 0xe9, 0xb2, 0x07, 0x9c, 0x70], rfl⟩

/-- The digests of the editions, the last one under the certificate of the other device. -/
def otherEdition : Digest :=
  ⟨[0xc2, 0x7a, 0x85, 0x12, 0xc2, 0x1a, 0x19, 0xb4, 0xf0, 0xb6, 0x89, 0x46, 0x92, 0x0b, 0x77, 0x54,
    0x51, 0x0b, 0x2f, 0x79, 0x90, 0xcd, 0x63, 0xca, 0x11, 0xc3, 0xb1, 0xfb, 0x72, 0xf3, 0x10, 0x18], rfl⟩

def secondEdition : Digest :=
  ⟨[0xa8, 0x8e, 0x58, 0x7c, 0x22, 0x64, 0xbc, 0x16, 0xab, 0x58, 0x3c, 0xf7, 0x6c, 0x63, 0x46, 0xce,
    0x5f, 0x6a, 0x4d, 0xb0, 0xe2, 0x35, 0x12, 0xa3, 0x9b, 0xc2, 0x38, 0x9c, 0x81, 0x65, 0x52, 0x7d], rfl⟩

def finalEdition : Digest :=
  ⟨[0x1b, 0x5e, 0xeb, 0x66, 0xae, 0xc4, 0x37, 0xd4, 0x41, 0xe4, 0xc5, 0xba, 0x9d, 0xd2, 0x76, 0x1c,
    0x62, 0x60, 0x88, 0xf0, 0xdb, 0x57, 0x33, 0x02, 0xd9, 0x00, 0x9c, 0xd6, 0x97, 0xe5, 0xe8, 0x4f], rfl⟩

def deviceEdition : Digest :=
  ⟨[0xc5, 0x3a, 0x3c, 0x37, 0x08, 0x23, 0x20, 0x9c, 0xf2, 0x6e, 0xc4, 0x87, 0xac, 0x23, 0xb0, 0x77,
    0xc4, 0xf4, 0x1a, 0x45, 0xc1, 0x25, 0x23, 0x03, 0xdb, 0x4f, 0xfe, 0xb0, 0x3c, 0x93, 0x77, 0x1c], rfl⟩

/-- The codes of their regions under the zero key. -/
def otherCode : Digest :=
  ⟨[0xc5, 0x1f, 0x9b, 0x35, 0xfc, 0x7a, 0x68, 0x6c, 0xea, 0x03, 0xa0, 0x06, 0xd1, 0x5e, 0x12, 0x53,
    0x00, 0xe4, 0xf5, 0x34, 0x20, 0x65, 0x24, 0x08, 0x8c, 0xf9, 0x1b, 0x28, 0x5a, 0x6a, 0xc2, 0xbb], rfl⟩

def secondCode : Digest :=
  ⟨[0xb5, 0xc1, 0xf2, 0xb9, 0x1f, 0x07, 0x49, 0x4c, 0x3d, 0x76, 0xab, 0x3d, 0x3f, 0x79, 0x51, 0x65,
    0xc8, 0xd5, 0xc6, 0x36, 0xdb, 0x1f, 0x08, 0x29, 0x08, 0x20, 0xe9, 0x30, 0x53, 0x83, 0x6a, 0x9b], rfl⟩

def finalCode : Digest :=
  ⟨[0x44, 0xa3, 0x6f, 0x82, 0x92, 0xe1, 0x99, 0x46, 0xae, 0x2a, 0xe1, 0x7f, 0x35, 0x8f, 0x27, 0xb2,
    0xed, 0x52, 0x35, 0xf6, 0x3b, 0xf6, 0xdb, 0x9b, 0xc6, 0xe6, 0x16, 0x7b, 0xa9, 0xa1, 0x9f, 0x49], rfl⟩

def deviceCode : Digest :=
  ⟨[0xf7, 0x6e, 0xd7, 0xe6, 0x99, 0xaa, 0xbf, 0x54, 0x96, 0x1c, 0xe3, 0x07, 0x69, 0x60, 0xf6, 0xc5,
    0x34, 0x65, 0xc7, 0x02, 0xac, 0x29, 0x99, 0x91, 0x86, 0xa4, 0x81, 0x73, 0xfc, 0x6a, 0x83, 0x25], rfl⟩

/-- SHA-256, HMAC and HKDF as they are at the inputs of these saves. The starts of the sessions differ in the root,
their links in the link before and in the length of the text, and the editions and regions in the head of the
session and in the device. -/
def lifeSha : Sha2 where
  sha256 input :=
    match input.length with
    | 75 => if input.getLastD 0 = 0x69 then draftStart else otherStart
    | 99 =>
      if input.getD 19 0 = 0xf1 then secondHead
      else if input.getD 19 0 = 0x4c then longHead
      else if input.getLastD 0 = 0x0e then otherHead
      else finalHead
    | _ =>
      if input.getD 148 0 = 0x4c then otherEdition
      else if input.getD 148 0 = 0x8d then secondEdition
      else if input.getD 227 0 = 0xde then finalEdition
      else deviceEdition
  hmac _ input :=
    if input.getD 133 0 = 0x4c then otherCode
    else if input.getD 133 0 = 0x8d then secondCode
    else if input.getD 212 0 = 0xde then finalCode
    else deviceCode
  hkdf _ input _ _ :=
    List.Vector.ofFn fun i ↦
      (match input.length with
        | 48 => draftNonce
        | 54 => otherNonce
        | _ => finalNonce).getD i.val 0

/-- BLAKE3 as it is at their leaves, which differ in the lengths of the texts, and at the roots over them. -/
def lifeBlake3 (input : List UInt8) : Digest :=
  match input.length with
  | 71 => draftLeaf
  | 77 => otherLeaf
  | 78 => finalLeaf
  | _ =>
    match input.getLastD 0 with
    | 0x5e => draftRoot
    | 0x46 => otherRoot
    | _ => finalRoot

/-- The chunk that is packed. -/
def draftChunk : Chunk :=
  ⟨⟨draftNonce, rfl⟩,
    [0x23, 0x09, 0xc2, 0x01, 0xce, 0x7a, 0x2c, 0x9b, 0x80, 0x79, 0xfa, 0xf3, 0x22, 0x70, 0x78, 0xed,
      0x27, 0x2b, 0x06, 0x4f, 0x62, 0xfd, 0xcd, 0xd2],
    ⟨draftLeaf⟩⟩

/-- The file when it was packed. -/
def draftSealed : Sealed := ⟨8, 1, draftRoot⟩

/-- The copy that its editors have. -/
def draftCopy : Copy := packedCopy draftSealed [] draftChunk.frame

/-- The draft is packed under the zero generator, which only HKDF has a part in. -/
theorem sealChunks_draft (sha256 : List UInt8 → Digest) (hmac : List UInt8 → List UInt8 → Digest) :
    ∃ src', sealChunks ⟨sha256, hmac, lifeSha.hkdf⟩ lifeBlake3 xChaCha20Poly1305 sampleFile.toStreamCall
      zeroRng (listSource : Source Empty _) collect ⟨draftText, [], ()⟩ =
        .ok (draftSealed, ⟨src', draftChunk.frame, ()⟩) := by
  obtain ⟨chunks, ⟨totalLen, chunkCount, treeRoot⟩, src', g, tree, hpieces, hrun, hbuild, hroot, htotal,
    hcount⟩ := sealChunks_of_delivers ⟨sha256, hmac, lifeSha.hkdf⟩ lifeBlake3 zeroRng
      lawful_xChaCha20Poly1305 (rfl : sampleFile.alg.ensureSupported = _) (by decide) (g := ())
      (delivers_listSource (ε := Empty) draftText) (by decide +kernel)
  have hvalue : sealPieces ⟨sha256, hmac, lifeSha.hkdf⟩ lifeBlake3 xChaCha20Poly1305
      sampleFile.toStreamCall zeroRng 0 ()
      (pieces sampleFile.chunkSize.toNat draftText) = .ok ([draftChunk], ()) := by
    rw [pieces_of_le (by decide +kernel)]
    have hsealed : sealChunkHedged lifeSha lifeBlake3 xChaCha20Poly1305 sampleFile.key sampleFile.alg
        sampleFile.fileId 0 (zeroRng.fillBytes () nonceLen).1 draftText =
          .ok (draftChunk.nonce, draftChunk.framed, draftChunk.leaf) := by decide +kernel
    simp only [sealPieces]
    exact hsealed ▸ rfl
  obtain ⟨rfl, -⟩ := Prod.mk.inj (Except.ok.inj (hpieces.symm.trans hvalue))
  have htree : (MerkleTree.build lifeBlake3 [draftChunk.leaf]).map (MerkleTree.root lifeBlake3) =
      .ok draftRoot := by decide +kernel
  rw [show MerkleTree.build lifeBlake3 [draftChunk.leaf] = .ok tree from hbuild, Except.ok_map,
    Except.ok.injEq] at htree
  refine ⟨src', ?_⟩
  obtain rfl : totalLen = 8 := UInt64.toNat_inj.mp (htotal.trans (by decide +kernel))
  obtain rfl : chunkCount = 1 := UInt32.toNat_inj.mp (hcount.trans (by decide +kernel))
  obtain rfl : treeRoot = draftRoot := hroot.trans htree
  rw [List.map_singleton, List.flatten_singleton] at hrun
  exact hrun

/-- The frame of a run of saves is under a nonce. -/
theorem exists_frame_of_saves {saves : List Save} {nonce : List UInt8}
    (h : (saves.foldlM (Copy.save lifeSha lifeBlake3 xChaCha20Poly1305 sampleFile) draftCopy).map
      (fun copy ↦ (copy.frame? sampleFile.toStreamCall 0).map (List.take nonceLen)) = .ok (some nonce)) :
    ∃ copy frame,
      saves.foldlM (Copy.save lifeSha lifeBlake3 xChaCha20Poly1305 sampleFile) draftCopy = .ok copy ∧
        copy.frame? sampleFile.toStreamCall 0 = some frame ∧ frame.take nonceLen = nonce := by
  obtain ⟨copy, hcopy, hframe⟩ := Except.map_eq_ok_iff.mp h
  obtain ⟨frame, hframe, hnonce⟩ := Option.map_eq_some_iff.mp hframe
  exact ⟨copy, frame, hcopy, hframe, hnonce⟩

/-- The final text is written in the place of the draft. -/
theorem exists_finalSave :
    ∃ copy frame,
      [finalSave].foldlM (Copy.save lifeSha lifeBlake3 xChaCha20Poly1305 sampleFile) draftCopy = .ok copy ∧
        copy.frame? sampleFile.toStreamCall 0 = some frame ∧ frame.take nonceLen = finalNonce :=
  exists_frame_of_saves (by decide +kernel)

/-- It is written after another draft. -/
theorem exists_bothSaves :
    ∃ copy frame,
      [otherSave, finalSave].foldlM (Copy.save lifeSha lifeBlake3 xChaCha20Poly1305 sampleFile) draftCopy = .ok copy ∧
        copy.frame? sampleFile.toStreamCall 0 = some frame ∧ frame.take nonceLen = finalNonce :=
  exists_frame_of_saves (by decide +kernel)

/-- What both saves mean. -/
theorem content_bothSaves :
    content (([otherSave, finalSave].map Save.changes).foldl revise
      (drafts zeroRng () (pieces sampleFile.chunkSize.toNat draftText))) = finalText := by
  rw [pieces_of_le (by decide +kernel)]
  decide +kernel

/-- The draft is read as the final text after two saves, which both seal its chunk anew. -/
theorem saved_file_reads_bothSaves :
    ∃ copy,
      [otherSave, finalSave].foldlM (Copy.save lifeSha lifeBlake3 xChaCha20Poly1305 sampleFile) draftCopy = .ok copy ∧
        Copy.Reads lifeBlake3 xChaCha20Poly1305 sampleFile.toStreamCall finalText copy ∧
        copy.desc.versionCounter.toNat = 2 ∧
        ∃ body, ContentDesc.decodeVerifiedWithBody lifeSha (copy.area ++ copy.payload) sampleFile.macKey
          sampleFile.fileId sampleFile.containerVersion = .ok (copy.desc, body, copy.area.length) := by
  obtain ⟨src', hstream⟩ := sealChunks_draft lifeSha.sha256 lifeSha.hmac
  obtain ⟨copy, -, hsaves, -⟩ := exists_bothSaves
  obtain ⟨hreads, hcounter, hread⟩ := saved_file_reads lawful_xChaCha20Poly1305 rfl (by decide)
    (delivers_listSource (ε := Empty) draftText) hstream hsaves
  rw [content_bothSaves] at hreads
  exact ⟨copy, hsaves, hreads, hcounter, hread (List.cons_ne_nil _ _)⟩

/-! ### Nonces -/

/-- What a nonce is derived from: the seed, and the piece with the position that it is sealed at. -/
def nonceInput (call : StreamCall) (index : UInt32) (sheet : Sheet) : List UInt8 × List UInt8 :=
  (sheet.seed.toList, Kdf.hedgeInput sheet.text (chunkAad call.fileId index call.alg))

/-- HKDF has one nonce for two sheets at their positions, which it is given differently. -/
def NonceCollision (sha : Sha2) (call : StreamCall) (a b : UInt32 × Sheet) : Prop :=
  nonceInput call a.1 a.2 ≠ nonceInput call b.1 b.2 ∧
    sha.hkdf (nonceInput call a.1 a.2).1 (nonceInput call a.1 a.2).2 Label.frameNonce.asBytes nonceLen =
      sha.hkdf (nonceInput call b.1 b.2).1 (nonceInput call b.1 b.2).2 Label.frameNonce.asBytes nonceLen

/-- The position is known from the associated data. -/
theorem chunkAad_inj {fileId : List.Vector UInt8 16} {alg : AeadAlg} {index index' : UInt32}
    (h : chunkAad fileId index alg = chunkAad fileId index' alg) : index = index' := by
  simp only [chunkAad, List.append_assoc, List.append_cancel_left_eq] at h
  exact (prefixFree_toBeBytes _ _ _ _ h).1

/-- The nonce of a sealed sheet. -/
theorem Copy.SealsAt.nonce_eq {call : StreamCall} {index : ℕ} {sheet : Sheet} {chunk : Chunk}
    (h : SealsAt sha blake3 c call index sheet chunk) :
    sheet.text.length < 2 ^ 32 ∧
      chunk.nonce = sha.hkdf (nonceInput call (UInt32.ofNat index) sheet).1
        (nonceInput call (UInt32.ofNat index) sheet).2 Label.frameNonce.asBytes nonceLen := by
  obtain ⟨hlen, -, hnonce⟩ := Kdf.hedgedNonce_eq_ok_iff.mp (sealChunkHedged_eq_ok_iff.mp h).1
  exact ⟨hlen, hnonce⟩

/-- Sheets with one input are one sheet at one position. -/
theorem eq_of_nonceInput_eq {call : StreamCall} {index index' : UInt32} {sheet sheet' : Sheet}
    (hlen : sheet.text.length < 2 ^ 32) (hlen' : sheet'.text.length < 2 ^ 32)
    (h : nonceInput call index sheet = nonceInput call index' sheet') : index = index' ∧ sheet = sheet' := by
  obtain ⟨hseed, hinput⟩ := Prod.mk.inj h
  obtain ⟨htext, haad⟩ := Kdf.hedgeInput_inj hlen hlen' hinput
  obtain ⟨text, seed⟩ := sheet
  obtain ⟨text', seed'⟩ := sheet'
  obtain rfl : seed = seed' := List.Vector.toList_injective hseed
  obtain rfl : text = text' := htext
  exact ⟨chunkAad_inj haad, rfl⟩

/-- The sheet and the chunk of a frame. -/
theorem Copy.SealsWith.exists_of_frame? {call : StreamCall} {doc : List Sheet} {copy : Copy}
    {chunks : List Chunk} {index : UInt32} {frame : List UInt8}
    (h : SealsWith sha blake3 c call doc copy chunks) (hframe : copy.frame? call index = some frame) :
    ∃ sheet chunk, doc[index.toNat]? = some sheet ∧ chunk.frame = frame ∧
      SealsAt sha blake3 c call index.toNat sheet chunk := by
  have hget := h.getElem?_of_frame? hframe
  rw [List.getElem?_map, Option.map_eq_some_iff] at hget
  obtain ⟨chunk, hchunk, rfl⟩ := hget
  have hlt := (List.getElem?_eq_some_iff.mp hchunk).1
  rw [h.length] at hlt
  exact ⟨_, chunk, List.getElem?_eq_getElem hlt, rfl,
    h.sealed_at _ _ chunk (List.getElem?_eq_getElem hlt) hchunk⟩

/-- **No nonce is used twice in the life of a file**, whatever seeds are repeated: not within a revision, not
between two revisions, and not between two branches of saves. If two frames have one nonce, then they are one
frame, of one sheet at one position, or HKDF has a collision between two inputs it was given. -/
theorem frames_share_no_nonce (hc : c.Lawful) (halg : file.alg.ensureSupported = .ok ())
    (hsize : checkChunkSize file.chunkSize = .ok file.chunkSize) (hplain : Delivers source src plain)
    (hstream : sealChunks sha blake3 c file.toStreamCall rng source collect ⟨src, [], d⟩ =
      .ok (sealed, ⟨src', payload, d'⟩)) {saves saves' : List Save} {copy copy' : Copy}
    (hsaves : saves.foldlM (Copy.save sha blake3 c file) (packedCopy sealed area payload) = .ok copy)
    (hsaves' : saves'.foldlM (Copy.save sha blake3 c file) (packedCopy sealed area payload) = .ok copy')
    {index index' : UInt32} {frame frame' : List UInt8}
    (hframe : copy.frame? file.toStreamCall index = some frame)
    (hframe' : copy'.frame? file.toStreamCall index' = some frame')
    (hnonce : frame.take nonceLen = frame'.take nonceLen) :
    ∃ sheet sheet',
      ((saves.map Save.changes).foldl revise
        (drafts rng d (pieces file.chunkSize.toNat plain)))[index.toNat]? = some sheet ∧
      ((saves'.map Save.changes).foldl revise
        (drafts rng d (pieces file.chunkSize.toNat plain)))[index'.toNat]? = some sheet' ∧
      ((index = index' ∧ sheet = sheet' ∧ frame = frame') ∨
        NonceCollision sha file.toStreamCall (index, sheet) (index', sheet')) := by
  obtain ⟨chunks, hpacked⟩ := sealsWith_of_sealChunks hc halg hsize hplain hstream area
  obtain ⟨⟨_, hseals⟩, -⟩ := hpacked.saves hc hsaves
  obtain ⟨⟨_, hseals'⟩, -⟩ := hpacked.saves hc hsaves'
  obtain ⟨sheet, chunk, hsheet, rfl, hat⟩ := hseals.exists_of_frame? hframe
  obtain ⟨sheet', chunk', hsheet', rfl, hat'⟩ := hseals'.exists_of_frame? hframe'
  obtain ⟨hlen, hvalue⟩ := hat.nonce_eq
  obtain ⟨hlen', hvalue'⟩ := hat'.nonce_eq
  rw [UInt32.ofNat_toNat] at hvalue hvalue'
  have hsame : chunk.nonce = chunk'.nonce := by
    rw [Chunk.frame, Chunk.frame, List.take_left' chunk.nonce.toList_length,
      List.take_left' chunk'.nonce.toList_length] at hnonce
    exact List.Vector.toList_injective hnonce
  refine ⟨sheet, sheet', hsheet, hsheet', ?_⟩
  -- equal inputs come from one index and one text, and different ones collide
  by_cases hinput : nonceInput file.toStreamCall index sheet = nonceInput file.toStreamCall index' sheet'
  · obtain ⟨rfl, rfl⟩ := eq_of_nonceInput_eq hlen hlen' hinput
    have hchunk := Except.ok.inj (hat.symm.trans hat')
    obtain ⟨-, hframed, -⟩ := And.imp_right Prod.mk.inj (Prod.mk.inj hchunk)
    refine .inl ⟨rfl, rfl, ?_⟩
    rw [Chunk.frame, Chunk.frame, hsame, hframed]
  · exact .inr ⟨hinput, hvalue.symm.trans (hsame.trans hvalue')⟩

/-- Two branches of saves end with the final text, under one seed: one of them has written another draft before. The
frames have one nonce, and are one frame. -/
theorem frames_share_no_nonce_twoBranches :
    ∃ copy copy' frame frame',
      [finalSave].foldlM (Copy.save lifeSha lifeBlake3 xChaCha20Poly1305 sampleFile) draftCopy = .ok copy ∧
        [otherSave, finalSave].foldlM (Copy.save lifeSha lifeBlake3 xChaCha20Poly1305 sampleFile) draftCopy =
          .ok copy' ∧
        copy.frame? sampleFile.toStreamCall 0 = some frame ∧ copy'.frame? sampleFile.toStreamCall 0 = some frame' ∧
        (frame = frame' ∨ ∃ a b, NonceCollision lifeSha sampleFile.toStreamCall a b) := by
  obtain ⟨src', hstream⟩ := sealChunks_draft lifeSha.sha256 lifeSha.hmac
  obtain ⟨copy, frame, hsaves, hframe, hnonce⟩ := exists_finalSave
  obtain ⟨copy', frame', hsaves', hframe', hnonce'⟩ := exists_bothSaves
  obtain ⟨sheet, sheet', -, -, hsame⟩ := frames_share_no_nonce lawful_xChaCha20Poly1305 rfl (by decide)
    (delivers_listSource (ε := Empty) draftText) hstream hsaves hsaves' hframe hframe' (hnonce.trans hnonce'.symm)
  refine ⟨copy, copy', frame, frame', hsaves, hsaves', hframe, hframe', ?_⟩
  rcases hsame with hsame | hcollision
  · exact .inl hsame.2.2
  · exact .inr ⟨_, _, hcollision⟩

end Packed

end OpenCrate.Engine
