import OpenCrate.Crypto.Stream
import OpenCrate.Format.Layout

/-!
# The payload: what is written and where it is read

The loop that writes the chunks and the arithmetic that finds them live in two crates. A payload
**tiles** a layout when its frames are as many and as long as the layout says; each frame then stands
where the layout places it, and the loop writes a payload that tiles.
-/

namespace OpenCrate.Format

open Crypto

/-- The frames of a payload have the number and the lengths that the layout gives them: a nonce, the
ciphertext and a tag. -/
structure Layout.Tiles (layout : Layout) (frames : List (List UInt8)) : Prop where
  length_eq : frames.length = layout.chunkCount.toNat
  length_frame : ∀ i frame, frames[i]? = some frame → frame.length =
    40 + min (layout.totalLen.toNat - i * layout.chunkSize.toNat) layout.chunkSize.toNat

namespace Layout.Tiles

variable {layout : Layout} {frames : List (List UInt8)} {frame : List UInt8} {index : UInt32}

/-- The frames before the last one are full. -/
theorem length_eq_of_lt (h : layout.Tiles frames)
    (hcount : layout.chunkCount.toNat = pieceCount layout.totalLen.toNat layout.chunkSize.toNat)
    (j : ℕ) (f : List UInt8) (hj : j + 1 < frames.length) (hf : frames[j]? = some f) :
    f.length = layout.chunkSize.toNat + 40 := by
  have hbounds := (pieceCount_bounds layout.totalLen.toNat layout.chunkSize_pos).1
  rw [← hcount, ← h.length_eq] at hbounds
  have hfull : (j + 1) * layout.chunkSize.toNat ≤ layout.totalLen.toNat :=
    le_trans (Nat.mul_le_mul_right _ (by omega)) hbounds
  rw [Nat.succ_mul] at hfull
  rw [h.length_frame j f hf]
  omega

/-- Full frames and a last one that is not longer tile the layout of their total length. -/
theorem of_full (hlen : frames.length = layout.chunkCount.toNat)
    (htotal : layout.totalLen.toNat + 40 * frames.length = frames.flatten.length)
    (hfull : ∀ j f, j + 1 < frames.length → frames[j]? = some f →
      f.length = layout.chunkSize.toNat + 40)
    (hbounds : ∀ f ∈ frames, 40 ≤ f.length ∧ f.length ≤ layout.chunkSize.toNat + 40) :
    layout.Tiles frames := by
  refine ⟨hlen, ?_⟩
  intro i frame hframe
  obtain ⟨hi, -⟩ := List.getElem?_eq_some_iff.mp hframe
  -- the last frame carries what the full ones before it leave of the total length
  obtain ⟨last, hlast⟩ : ∃ last, frames[frames.length - 1]? = some last :=
    ⟨_, List.getElem?_eq_getElem (by omega)⟩
  have hbefore := length_flatten_take hfull (by omega : frames.length - 1 < frames.length)
  have hsplit : frames.flatten.length =
      (frames.length - 1) * (layout.chunkSize.toNat + 40) + last.length := by
    have hframes : frames = frames.take (frames.length - 1) ++ [last] := by
      obtain ⟨hlt, hget⟩ := List.getElem?_eq_some_iff.mp hlast
      rw [← hget, List.take_append_getElem hlt, Nat.sub_add_cancel (by omega), List.take_length]
    calc frames.flatten.length = (frames.take (frames.length - 1) ++ [last]).flatten.length := by
          rw [← hframes]
      _ = (frames.length - 1) * (layout.chunkSize.toNat + 40) + last.length := by
          rw [List.flatten_append, List.length_append, hbefore, List.flatten_singleton]
  obtain ⟨hmin, hmax⟩ := hbounds last (List.mem_of_getElem? hlast)
  rw [Nat.mul_add] at hsplit
  rcases Nat.lt_or_ge (i + 1) frames.length with hlt | hge
  · have hle : (i + 1) * layout.chunkSize.toNat ≤ (frames.length - 1) * layout.chunkSize.toNat :=
      Nat.mul_le_mul_right _ (by omega)
    rw [Nat.succ_mul] at hle
    rw [hfull i frame hlt hframe]
    omega
  · obtain rfl : i = frames.length - 1 := by omega
    obtain rfl := Option.some_inj.mp (hframe.symm.trans hlast)
    omega

/-- **A frame stands where the layout places it.** The range is refused only if it does not fit. -/
theorem exists_span (h : layout.Tiles frames)
    (hcount : layout.chunkCount.toNat = pieceCount layout.totalLen.toNat layout.chunkSize.toNat)
    (hframe : frames[index.toNat]? = some frame) :
    ∃ pos, slice? frames.flatten pos (pos + frame.length) = some frame ∧
      ∀ start stop, layout.ciphertextSpan index = .ok (start, stop) ↔
        start.toNat = layout.payloadOffset.toNat + pos ∧
          stop.toNat = layout.payloadOffset.toNat + pos + frame.length := by
  obtain ⟨hlt, -⟩ := List.getElem?_eq_some_iff.mp hframe
  have hindex : index < layout.chunkCount := by
    rw [UInt32.lt_iff_toNat_lt, ← h.length_eq]
    exact hlt
  refine ⟨index.toNat * (layout.chunkSize.toNat + 40), ?_, ?_⟩
  · exact slice?_flatten_of_tiling (h.length_eq_of_lt hcount) hframe
  · intro start stop
    rw [ciphertextSpan_eq_ok_iff hindex, h.length_frame _ _ hframe]
    constructor
    · rintro ⟨hstart, hstop⟩
      exact ⟨hstart, by omega⟩
    · rintro ⟨hstart, hstop⟩
      exact ⟨hstart, by omega⟩

/-- The payload has nothing but the frames, so that its length is that of the content and of a nonce
and a tag for each chunk. -/
theorem length_flatten (h : layout.Tiles frames)
    (hcount : layout.chunkCount.toNat = pieceCount layout.totalLen.toNat layout.chunkSize.toNat) :
    frames.flatten.length = layout.totalLen.toNat + layout.chunkCount.toNat * 40 := by
  have hpos := pieceCount_pos layout.totalLen.toNat layout.chunkSize.toNat
  have hbounds := pieceCount_bounds layout.totalLen.toNat layout.chunkSize_pos
  obtain ⟨n, hn⟩ : ∃ n, frames.length = n + 1 := ⟨frames.length - 1, by rw [h.length_eq]; omega⟩
  rw [← hcount, ← h.length_eq, hn, Nat.add_sub_cancel, Nat.succ_mul] at hbounds
  have hlast : (frames.drop n).flatten.length =
      40 + min (layout.totalLen.toNat - n * layout.chunkSize.toNat) layout.chunkSize.toNat := by
    rw [List.drop_eq_getElem_cons (by omega), List.drop_of_length_le (by omega),
      List.flatten_singleton]
    exact h.length_frame n _ (List.getElem?_eq_getElem (by omega))
  have hbefore : (frames.take n).flatten.length = n * (layout.chunkSize.toNat + 40) :=
    length_flatten_take (h.length_eq_of_lt hcount) (by omega)
  rw [← List.take_append_drop n frames, List.flatten_append, List.length_append, hlast, hbefore,
    ← h.length_eq, hn, Nat.mul_add, Nat.succ_mul]
  omega

end Layout.Tiles

/-! ### The written payload -/

section Written

variable {γ : Type} (sha : Sha2) (blake3 : List UInt8 → Digest) (c : XChaCha) (call : StreamCall)

/-- The chunks of a content, each sealed at its position. -/
structure Written (content : List UInt8) (chunks : List Chunk) : Prop where
  length_eq : chunks.length = pieceCount content.length call.chunkSize.toNat
  sealed_at : ∀ i chunk, chunks[i]? = some chunk → ∃ nonceSeed,
    sealChunkHedged sha blake3 c call.key call.alg call.fileId (UInt32.ofNat i) nonceSeed
      ((content.drop (i * call.chunkSize.toNat)).take call.chunkSize.toNat) =
        .ok (chunk.nonce, chunk.framed, chunk.leaf)

variable {sha blake3 c call} {content : List UInt8} {chunks : List Chunk}

theorem written_of_sealPieces {rng : Rng γ} {g g' : γ} (hsize : 0 < call.chunkSize.toNat)
    (h : sealPieces sha blake3 c call rng 0 g (pieces call.chunkSize.toNat content) =
      .ok (chunks, g')) : Written sha blake3 c call content chunks := by
  obtain ⟨hlen, hget⟩ := getElem?_of_sealPieces h
  refine ⟨hlen.trans (length_pieces hsize content), ?_⟩
  intro i chunk hchunk
  obtain ⟨hi, -⟩ := List.getElem?_eq_some_iff.mp hchunk
  obtain ⟨chunk', nonceSeed, hchunk', hsealed⟩ :=
    hget i _ (getElem?_pieces hsize (by rw [← hlen]; exact hi))
  obtain rfl := Option.some_inj.mp (hchunk.symm.trans hchunk')
  rw [Nat.zero_add] at hsealed
  exact ⟨nonceSeed, hsealed⟩

/-- What was written tiles the layout of its size, count and length. -/
theorem Written.tiles (h : Written sha blake3 c call content chunks) (hc : c.Lawful)
    {layout : Layout} (hsize : layout.chunkSize = call.chunkSize)
    (htotal : layout.totalLen.toNat = content.length)
    (hcount : layout.chunkCount.toNat = pieceCount content.length call.chunkSize.toNat) :
    layout.Tiles (chunks.map Chunk.frame) := by
  refine ⟨by rw [List.length_map, h.length_eq, hcount], ?_⟩
  intro i frame hframe
  rw [List.getElem?_map, Option.map_eq_some_iff] at hframe
  obtain ⟨chunk, hchunk, rfl⟩ := hframe
  obtain ⟨nonceSeed, hsealed⟩ := h.sealed_at i chunk hchunk
  have hlen := length_of_sealChunkHedged hc hsealed
  rw [List.length_take, List.length_drop] at hlen
  rw [Chunk.frame, List.length_append, chunk.nonce.toList_length, hlen, hsize, htotal]
  simp only [Crypto.nonceLen, Crypto.tagLen]
  omega

/-- A chunk stands in the payload where the layout places it, and seals the bytes of the content that
the layout gives to its position. -/
def ChunkAt (sha : Sha2) (blake3 : List UInt8 → Digest) (c : XChaCha) (call : StreamCall)
    (content payload : List UInt8) (layout : Layout) (index : UInt32) : Prop :=
  ∃ (len : UInt64) (chunk : Chunk) (nonceSeed : Nonce) (pos : ℕ),
    layout.plaintextLenOf index = .ok len ∧
    sealChunkHedged sha blake3 c call.key call.alg call.fileId index nonceSeed
      ((content.drop (index.toNat * call.chunkSize.toNat)).take len.toNat) =
        .ok (chunk.nonce, chunk.framed, chunk.leaf) ∧
    chunk.frame.length = 24 + len.toNat + 16 ∧
    slice? payload pos (pos + chunk.frame.length) = some chunk.frame ∧
    ∀ start stop, layout.ciphertextSpan index = .ok (start, stop) ↔
      start.toNat = layout.payloadOffset.toNat + pos ∧
        stop.toNat = layout.payloadOffset.toNat + pos + chunk.frame.length

/-- **Every chunk of what was written is found by the layout.** -/
theorem Written.chunkAt (h : Written sha blake3 c call content chunks) (hc : c.Lawful)
    {layout : Layout} (hsize : layout.chunkSize = call.chunkSize)
    (htotal : layout.totalLen.toNat = content.length)
    (hcount : layout.chunkCount.toNat = pieceCount content.length call.chunkSize.toNat)
    {index : UInt32} (hindex : index < layout.chunkCount) :
    ChunkAt sha blake3 c call content (chunks.map Chunk.frame).flatten layout index := by
  have hlt : index.toNat < chunks.length := by
    rw [h.length_eq, ← hcount]
    exact UInt32.lt_iff_toNat_lt.mp hindex
  obtain ⟨chunk, hchunk⟩ : ∃ chunk, chunks[index.toNat]? = some chunk :=
    ⟨_, List.getElem?_eq_getElem hlt⟩
  have hframe : (chunks.map Chunk.frame)[index.toNat]? = some chunk.frame := by
    rw [List.getElem?_map, hchunk]
    rfl
  have htiles := h.tiles hc hsize htotal hcount
  obtain ⟨len, hlen, hlenNat⟩ := Layout.plaintextLenOf_eq_ok hindex
  rw [htotal, hsize] at hlenNat
  obtain ⟨nonceSeed, hsealed⟩ := h.sealed_at index.toNat chunk hchunk
  rw [UInt32.ofNat_toNat] at hsealed
  obtain ⟨pos, hslice, hspan⟩ := htiles.exists_span (by rw [hcount, htotal, hsize]) hframe
  refine ⟨len, chunk, nonceSeed, pos, hlen, ?_, ?_, hslice, hspan⟩
  · rw [hlenNat, Nat.min_comm, ← List.length_drop, List.take_eq_take_min.symm]
    exact hsealed
  · rw [htiles.length_frame _ _ hframe, hlenNat, htotal, hsize]
    omega

end Written

/-! ### The loop and the layout -/

section Agreement

variable {ε σ γ : Type} (sha : Sha2) (blake3 : List UInt8 → Digest) {c : XChaCha}
  {call : StreamCall} (rng : Rng γ) {source : Source ε σ} {content : List UInt8} {s : σ} {g : γ}

/-- What a run has written is found by the layout of any offset. -/
theorem chunkAt_of_sealChunks (hc : c.Lawful) (halg : call.alg.ensureSupported = .ok ())
    (hsize : checkChunkSize call.chunkSize = .ok call.chunkSize) (h : Delivers source s content)
    {sealed : Sealed} {s' : σ} {payload : List UInt8} {g' : γ}
    (hrun : sealChunks sha blake3 c call rng source collect ⟨s, [], g⟩ =
      .ok (sealed, ⟨s', payload, g'⟩)) :
    sealed.totalLen.toNat = content.length ∧
      ∀ off, ∃ layout, Layout.new call.chunkSize sealed.chunkCount sealed.totalLen off = .ok layout ∧
        layout.chunkSize = call.chunkSize ∧
        ∀ index < sealed.chunkCount, ChunkAt sha blake3 c call content payload layout index := by
  have hpos : 0 < call.chunkSize.toNat :=
    lt_of_lt_of_le (by decide) (Layout.toNat_chunkSize_bounds hsize).2.1
  have hnonzero : call.chunkSize ≠ 0 := by
    intro hzero
    rw [hzero] at hpos
    exact lt_irrefl _ hpos
  have hfew : pieceCount content.length call.chunkSize.toNat < 2 ^ 32 := by
    by_contra hmany
    rw [sealChunks_tooLarge sha blake3 rng hc halg hpos h (not_lt.mp hmany)] at hrun
    cases hrun
  obtain ⟨chunks, sealed₀, s₀, g₀, tree, hpieces, hok, -, -, htotal, hcount⟩ :=
    sealChunks_of_delivers sha blake3 rng hc halg hpos (g := g) h hfew
  rw [hok] at hrun
  obtain ⟨rfl, ⟨⟩⟩ := Prod.mk.inj (Except.ok.inj hrun)
  refine ⟨htotal, fun off ↦ ?_⟩
  exact ⟨_, Layout.new_eq_ok_iff.mpr ⟨hsize, by rw [hcount, htotal], hnonzero, rfl⟩, rfl,
    fun index hindex ↦ (written_of_sealPieces hpos hpieces).chunkAt hc rfl htotal hcount hindex⟩

/-- **Streaming encryption agrees with the layout**, for every content and every way of reading it.
A file of more chunks than can be counted is refused, and no other one; what is written does not
depend on the source; and every chunk of it stands where a layout of any offset places it, and seals
the bytes of its position. -/
theorem sealChunks_agrees_with_layout (hc : c.Lawful) (halg : call.alg.ensureSupported = .ok ())
    (hsize : checkChunkSize call.chunkSize = .ok call.chunkSize) (h : Delivers source s content) :
    (sealChunks sha blake3 c call rng source collect ⟨s, [], g⟩ = .error .tooLarge ↔
        2 ^ 32 - 1 < pieceCount content.length call.chunkSize.toNat) ∧
      (pieceCount content.length call.chunkSize.toNat ≤ 2 ^ 32 - 1 →
        ∃ sealed s' payload g',
          sealChunks sha blake3 c call rng source collect ⟨s, [], g⟩ =
            .ok (sealed, ⟨s', payload, g'⟩) ∧
          (∀ {ε' σ' : Type} (source' : Source ε' σ') (t : σ'), Delivers source' t content →
            ∃ t', sealChunks sha blake3 c call rng source' collect ⟨t, [], g⟩ =
              .ok (sealed, ⟨t', payload, g'⟩)) ∧
          sealed.totalLen.toNat = content.length ∧
          payload.length = content.length + sealed.chunkCount.toNat * 40 ∧
          ∀ off, ∃ layout,
            Layout.new call.chunkSize sealed.chunkCount sealed.totalLen off = .ok layout ∧
            ∀ index < sealed.chunkCount,
              ChunkAt sha blake3 c call content payload layout index) := by
  have hpos : 0 < call.chunkSize.toNat :=
    lt_of_lt_of_le (by decide) (Layout.toNat_chunkSize_bounds hsize).2.1
  refine ⟨⟨?_, ?_⟩, ?_⟩
  · intro herror
    by_contra hfew
    obtain ⟨_, _, _, _, _, -, hok, -⟩ :=
      sealChunks_of_delivers sha blake3 rng hc halg hpos (g := g) h (by omega)
    rw [hok] at herror
    cases herror
  · intro hmany
    exact sealChunks_tooLarge sha blake3 rng hc halg hpos h (by omega)
  · intro hfew
    obtain ⟨chunks, sealed, s', g', tree, hpieces, hrun, hbuild, hroot, htotal, hcount⟩ :=
      sealChunks_of_delivers sha blake3 rng hc halg hpos (g := g) h (by omega)
    obtain ⟨-, hlayout⟩ := chunkAt_of_sealChunks sha blake3 rng hc halg hsize h hrun
    refine ⟨sealed, s', _, g', hrun, ?_, htotal, ?_, ?_⟩
    · -- another source is read into the same pieces
      intro ε' σ' source' t h'
      obtain ⟨chunks', sealed', t', g'', tree', hpieces', hrun', hbuild', hroot', htotal', hcount'⟩ :=
        sealChunks_of_delivers sha blake3 rng hc halg hpos (g := g) h' (by omega)
      obtain ⟨rfl, rfl⟩ := Prod.mk.inj (Except.ok.inj (hpieces.symm.trans hpieces'))
      obtain rfl := Except.ok.inj (hbuild.symm.trans hbuild')
      obtain rfl : sealed = sealed' := Sealed.ext
        (UInt64.toNat_inj.mp (htotal.trans htotal'.symm))
        (UInt32.toNat_inj.mp (hcount.trans hcount'.symm)) (hroot.trans hroot'.symm)
      exact ⟨t', hrun'⟩
    · obtain ⟨layout, hnew, -⟩ := hlayout 0
      obtain ⟨-, -, hnonzero, rfl⟩ := Layout.new_eq_ok_iff.mp hnew
      have htiles : Layout.Tiles ⟨call.chunkSize, hnonzero, sealed.chunkCount, sealed.totalLen, 0⟩
          (chunks.map Chunk.frame) :=
        (written_of_sealPieces hpos hpieces).tiles hc rfl htotal hcount
      rw [htiles.length_flatten (by rw [hcount, htotal]), htotal]
    · intro off
      obtain ⟨layout, hnew, -, hchunks⟩ := hlayout off
      exact ⟨layout, hnew, hchunks⟩

/-- A chunk size of one page, under the zero key and for the zero identifier. -/
def zeroCall : StreamCall :=
  ⟨⟨List.Vector.replicate 32 0⟩, .xChaCha20Poly1305, List.Vector.replicate 16 0, 4096⟩

/-- The zero generator, as it is after a rollback. -/
def zeroRng : Rng Unit := ⟨fun g n ↦ (List.Vector.replicate n 0, g)⟩

/-- A full page, and a line behind it. -/
def pageAndLine : List UInt8 := List.replicate 4096 0x61 ++ utf8 "The last line."

/-- The nonces of the page and of the line under `zeroCall`, for the zero seed. -/
def pageNonce : List UInt8 :=
  [0xda, 0x33, 0x03, 0x5f, 0xed, 0xa3, 0x8b, 0x8d, 0xd4, 0x11, 0x9a, 0xf3, 0x85, 0x0e, 0x95, 0x0e,
    0xa1, 0x90, 0xaa, 0x49, 0x49, 0xa7, 0x9e, 0xb0]

def lineNonce : List UInt8 :=
  [0x14, 0x19, 0xf5, 0xab, 0x18, 0x26, 0x8f, 0xe1, 0xf4, 0x55, 0xba, 0xd5, 0x82, 0xe0, 0xaf, 0x4e,
    0x23, 0xf7, 0x2a, 0xa2, 0xbb, 0xa0, 0xa0, 0x34]

/-- The leaves of both chunks, the node over them, and the root. -/
def pageLeaf : Digest :=
  ⟨[0x14, 0x92, 0x67, 0x44, 0xf0, 0x53, 0xa7, 0xbc, 0x3d, 0x47, 0x7f, 0xea, 0x8f, 0x62, 0x10, 0x71,
    0xa8, 0x05, 0x73, 0x86, 0x2c, 0x48, 0xa1, 0x95, 0xb7, 0x89, 0x15, 0x28, 0xd4, 0x3d, 0x5c, 0x79], rfl⟩

def lineLeaf : Digest :=
  ⟨[0xb3, 0x31, 0xde, 0x02, 0x94, 0x0e, 0x9b, 0x97, 0xf0, 0xff, 0x3e, 0x30, 0xf2, 0xec, 0x12, 0x98,
    0x07, 0x5f, 0x5c, 0x53, 0x47, 0x95, 0x7c, 0x54, 0xb4, 0xaa, 0xb6, 0x07, 0x1e, 0x31, 0x1d, 0xdc], rfl⟩

def pageNode : Digest :=
  ⟨[0xe9, 0x32, 0xd0, 0xe0, 0x2a, 0x5e, 0xcf, 0x84, 0xbf, 0x57, 0xe7, 0x5d, 0x10, 0x53, 0x90, 0xf9,
    0xeb, 0x92, 0x66, 0x87, 0x20, 0xbc, 0xed, 0xc0, 0xe5, 0x05, 0xe3, 0x32, 0x8a, 0x75, 0x7d, 0xba], rfl⟩

def pageRoot : Digest :=
  ⟨[0x15, 0x2f, 0x8a, 0x57, 0x04, 0x87, 0xfa, 0x5b, 0x25, 0x2d, 0x1b, 0x05, 0xee, 0x56, 0xae, 0x83,
    0x5f, 0x6e, 0x31, 0x60, 0x31, 0x5f, 0xbc, 0x69, 0x16, 0x71, 0x38, 0x31, 0xf4, 0xcd, 0xe0, 0xd0], rfl⟩

/-- HKDF as it is at the two chunks: the input begins with the length of the plaintext. -/
def pageSha : Sha2 where
  sha256 _ := List.Vector.replicate 32 0
  hmac _ _ := List.Vector.replicate 32 0
  hkdf _ input _ _ :=
    List.Vector.ofFn fun i ↦ (if input.getD 2 0 = 0x10 then pageNonce else lineNonce).getD i.val 0

/-- BLAKE3 as it is at their leaves, where the position stands behind the label, and at the tree over them. -/
def pageBlake3 (input : List UInt8) : Digest :=
  match input.head? with
  | some 0x00 => if input.getD 14 0 = 0 then pageLeaf else lineLeaf
  | some 0x01 => pageNode
  | _ => pageRoot

/-- The agreement for a page and a line, which are read in pieces of a hundred bytes and written in two chunks:
the frames are the same as if they were read at once, and the layout finds both. -/
theorem sealChunks_agrees_with_layout_pageAndLine :
    xChaCha20Poly1305.Lawful ∧
      ∃ sealed s' t' payload g', sealChunks pageSha pageBlake3 xChaCha20Poly1305 zeroCall zeroRng
          (Source.short 100 listSource : Source Empty _) collect ⟨pageAndLine, [], ()⟩ =
            .ok (sealed, ⟨s', payload, g'⟩) ∧
        sealChunks pageSha pageBlake3 xChaCha20Poly1305 zeroCall zeroRng (listSource : Source Empty _) collect
          ⟨pageAndLine, [], ()⟩ = .ok (sealed, ⟨t', payload, g'⟩) ∧
        sealed.chunkCount = 2 ∧ payload.length = 4190 ∧
        ∀ off, ∃ layout,
          Layout.new zeroCall.chunkSize sealed.chunkCount sealed.totalLen off = .ok layout ∧
          ∀ index < sealed.chunkCount, ChunkAt pageSha pageBlake3 xChaCha20Poly1305 zeroCall pageAndLine
            payload layout index := by
  have hlength : pageAndLine.length = 4110 := by
    rw [pageAndLine, List.length_append, List.length_replicate]
    decide
  have hpieces : pieceCount pageAndLine.length zeroCall.chunkSize.toNat = 2 := by
    rw [hlength]
    decide
  have halg : zeroCall.alg.ensureSupported = .ok () := rfl
  have hsize : checkChunkSize zeroCall.chunkSize = .ok zeroCall.chunkSize := by decide
  have hplain := delivers_listSource (ε := Empty) pageAndLine
  obtain ⟨-, hrun⟩ := sealChunks_agrees_with_layout pageSha pageBlake3 zeroRng lawful_xChaCha20Poly1305 halg hsize
    (hplain.short (show 0 < 100 by decide)) (g := ())
  obtain ⟨sealed, s', payload, g', hok, hsources, htotal, hlen, hplaced⟩ := hrun (by rw [hpieces]; decide)
  obtain ⟨t', hwhole⟩ := hsources listSource pageAndLine hplain
  obtain ⟨layout, hnew, -⟩ := hplaced 0
  obtain ⟨-, hcount, -⟩ := Layout.new_eq_ok_iff.mp hnew
  rw [htotal, hpieces] at hcount
  refine ⟨lawful_xChaCha20Poly1305, sealed, s', t', payload, g', hok, hwhole, UInt32.toNat_inj.mp hcount, ?_, hplaced⟩
  rw [hlen, hlength, hcount]

end Agreement

end OpenCrate.Format
