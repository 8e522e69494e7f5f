import OpenCrate.Engine.StampedFile

/-!
# Editions and their bases

A session is a chain of hashes: its start names the file and the copy that the edit began with, and every save names
the link before it. An edition carries the head of its session inside the signed part of its region, so the head
says what the edit was made on. Equal heads are equal sessions (`session_head_pins_saves`), and two editions with
one head, from whatever histories, are the same frames on top of the same frames (`edition_names_base`); or somebody
hashed a collision.

What a head does not say is how the base came about: the copy before the base is named by the base's own head only.
-/

namespace OpenCrate.Engine

open Crypto Format Edit

/-! ### Sessions -/

/-- A link of a session: the copy that it starts from, or a save. -/
inductive SessionLink where
  | start (fileId : List.Vector UInt8 16) (baseCounter : UInt64) (baseRoot : Digest)
  | save (prev : Digest) (number : UInt64) (root : Digest) (totalLen : UInt64)
  deriving DecidableEq

namespace SessionLink

/-- What is hashed of a link. -/
def input : SessionLink → List UInt8
  | start fileId baseCounter baseRoot =>
    ((((Transcript.new .editSession).fixed fileId.toList).u64be baseCounter).fixed baseRoot.toList).asBytes
  | save prev number root totalLen =>
    (((((Transcript.new .editSession).fixed prev.toList).u64be number).fixed root.toList).u64be totalLen).asBytes

/-- The two kinds of links differ in their lengths, and their parts have fixed ones. -/
theorem input_injective : Function.Injective input := by
  intro l l' h
  have hlen := congrArg List.length h
  cases l with
  | start fileId baseCounter baseRoot =>
    cases l' with
    | start fileId' baseCounter' baseRoot' =>
      simp only [input, Transcript.asBytes, Transcript.fixed, Transcript.u64be, List.append_assoc,
        List.append_cancel_left_eq] at h
      obtain ⟨hfile, hrest⟩ := prefixFree_vector _ _ _ _ _ h
      obtain ⟨hcounter, hroot⟩ := prefixFree_toBeBytes _ _ _ _ hrest
      rw [hfile, hcounter, List.Vector.eq _ _ hroot]
    | save =>
      -- the inputs of a start and a save differ in length
      simp only [input, Transcript.asBytes, Transcript.fixed, Transcript.u64be, List.length_append,
        List.Vector.toList_length, length_toBeBytes, LeInt.width_uint64] at hlen
      omega
  | save prev number root totalLen =>
    cases l' with
    | start =>
      simp only [input, Transcript.asBytes, Transcript.fixed, Transcript.u64be, List.length_append,
        List.Vector.toList_length, length_toBeBytes, LeInt.width_uint64] at hlen
      omega
    | save prev' number' root' totalLen' =>
      simp only [input, Transcript.asBytes, Transcript.fixed, Transcript.u64be, List.append_assoc,
        List.append_cancel_left_eq] at h
      obtain ⟨hprev, hrest⟩ := prefixFree_vector _ _ _ _ _ h
      obtain ⟨hnumber, hrest⟩ := prefixFree_toBeBytes _ _ _ _ hrest
      obtain ⟨hroot, htotal⟩ := prefixFree_vector _ _ _ _ _ hrest
      rw [hprev, hnumber, hroot, prefixFree_toBeBytes.injective htotal]

end SessionLink

/-- What a session starts from. -/
structure SessionBase where
  fileId : List.Vector UInt8 16
  counter : UInt64
  root : Digest
  deriving DecidableEq

section Sessions

variable (sha : Sha2)

/-- The head of a session: the saves are the newest first, each with its root and length. -/
def sessionHead (base : SessionBase) : List (Digest × UInt64) → Digest
  | [] => sessionStart sha base.fileId base.counter base.root
  | save :: older => sessionStep sha (sessionHead base older) (UInt64.ofNat (older.length + 1)) save.1 save.2

/-- The links of a session, the newest first. -/
def sessionLinks (base : SessionBase) : List (Digest × UInt64) → List SessionLink
  | [] => [.start base.fileId base.counter base.root]
  | save :: older =>
    .save (sessionHead sha base older) (UInt64.ofNat (older.length + 1)) save.1 save.2 :: sessionLinks base older

/-- What is hashed in a session. -/
def sessionInputs (base : SessionBase) (saves : List (Digest × UInt64)) : List (List UInt8) :=
  (sessionLinks sha base saves).map SessionLink.input

variable {sha} {base base' : SessionBase} {saves saves' : List (Digest × UInt64)}

/-- A session is read off its links. -/
theorem sessionLinks_inj (h : sessionLinks sha base saves = sessionLinks sha base' saves') :
    base = base' ∧ saves = saves' := by
  -- by induction on the saves: a start is not a save, so the histories are equally long
  induction saves generalizing saves' with
  | nil =>
    rcases saves' with - | ⟨save, older⟩
    · obtain ⟨fileId, counter, root⟩ := base
      obtain ⟨fileId', counter', root'⟩ := base'
      obtain ⟨rfl, rfl, rfl⟩ := SessionLink.start.inj (List.cons.inj h).1
      exact ⟨rfl, rfl⟩
    · cases (List.cons.inj h).1
  | cons save older ih =>
    rcases saves' with - | ⟨save', older'⟩
    · cases (List.cons.inj h).1
    · obtain ⟨hlink, holder⟩ := List.cons.inj h
      obtain ⟨-, -, hroot, htotal⟩ := SessionLink.save.inj hlink
      obtain ⟨hbase, rfl⟩ := ih holder
      exact ⟨hbase, congrArg (· :: older) (Prod.ext hroot htotal)⟩

/-- Links with one hash are one link. -/
theorem link_eq_or_collide (link link' : SessionLink) (older older' : List SessionLink)
    (h : sha.sha256 link.input = sha.sha256 link'.input) :
    link = link' ∨ Merkle.Collides sha.sha256 ((link :: older).map SessionLink.input)
      ((link' :: older').map SessionLink.input) := by
  have hmem : link.input ∈ (link :: older).map SessionLink.input := List.mem_cons_self
  have hmem' : link'.input ∈ (link' :: older').map SessionLink.input := List.mem_cons_self
  exact (Merkle.eq_or_collides hmem hmem' h).imp_left fun heq ↦ SessionLink.input_injective heq

/-- Equal heads have equal links behind them, one by one. -/
theorem links_eq_or_collide (h : sessionHead sha base saves = sessionHead sha base' saves') :
    sessionLinks sha base saves = sessionLinks sha base' saves' ∨
      Merkle.Collides sha.sha256 (sessionInputs sha base saves) (sessionInputs sha base' saves') := by
  induction saves generalizing saves' with
  | nil =>
    rcases saves' with - | ⟨save', older'⟩
    · exact (link_eq_or_collide _ _ [] [] h).imp_left fun hlink ↦ congrArg (fun l ↦ [l]) hlink
    · -- a start is no save
      exact (link_eq_or_collide _ _ [] (sessionLinks sha base' older') h).imp_left
        fun hlink ↦ SessionLink.noConfusion hlink
  | cons save older ih =>
    rcases saves' with - | ⟨save', older'⟩
    · exact (link_eq_or_collide _ _ (sessionLinks sha base older) [] h).imp_left
        fun hlink ↦ SessionLink.noConfusion hlink
    · rcases link_eq_or_collide (.save (sessionHead sha base older) (UInt64.ofNat (older.length + 1)) save.1 save.2)
        (.save (sessionHead sha base' older') (UInt64.ofNat (older'.length + 1)) save'.1 save'.2)
        (sessionLinks sha base older) (sessionLinks sha base' older') h with hlink | hcol
      · -- the links name the heads before them
        rcases ih (SessionLink.save.inj hlink).1 with holder | hcol
        · exact Or.inl (congrArg₂ List.cons hlink holder)
        · exact Or.inr (hcol.mono (List.subset_cons_self _ _) (List.subset_cons_self _ _))
      · exact Or.inr hcol

/-- **The head of a session pins its base and all of its saves**, or somebody hashed a collision. -/
theorem session_head_pins_saves (h : sessionHead sha base saves = sessionHead sha base' saves') :
    (base = base' ∧ saves = saves') ∨
      Merkle.Collides sha.sha256 (sessionInputs sha base saves) (sessionInputs sha base' saves') :=
  (links_eq_or_collide h).imp_left sessionLinks_inj

end Sessions

/-- Another draft and the final text are saved in one session. Whoever has its head and a record of it knows both
saves from the record. -/
theorem session_head_pins_saves_bothSaves :
    ∃ copy copy', draftCopy.save lifeSha lifeBlake3 xChaCha20Poly1305 sampleFile otherSave = .ok copy ∧
      copy.save lifeSha lifeBlake3 xChaCha20Poly1305 sampleFile finalSave = .ok copy' ∧
      (((⟨sampleFile.fileId, draftCopy.desc.versionCounter, draftCopy.desc.treeRoot⟩ : SessionBase) =
            ⟨sampleFile.fileId, 0, draftRoot⟩ ∧
          [(copy'.desc.treeRoot, copy'.desc.totalLen), (copy.desc.treeRoot, copy.desc.totalLen)] =
            [(finalRoot, 15), (otherRoot, 14)]) ∨
        Merkle.Collides lifeSha.sha256
          (sessionInputs lifeSha ⟨sampleFile.fileId, draftCopy.desc.versionCounter, draftCopy.desc.treeRoot⟩
            [(copy'.desc.treeRoot, copy'.desc.totalLen), (copy.desc.treeRoot, copy.desc.totalLen)])
          (sessionInputs lifeSha ⟨sampleFile.fileId, 0, draftRoot⟩ [(finalRoot, 15), (otherRoot, 14)])) := by
  have hsession : (draftCopy.save lifeSha lifeBlake3 xChaCha20Poly1305 sampleFile otherSave).bind (fun copy ↦
      (copy.save lifeSha lifeBlake3 xChaCha20Poly1305 sampleFile finalSave).map fun copy' ↦
        sessionHead lifeSha ⟨sampleFile.fileId, draftCopy.desc.versionCounter, draftCopy.desc.treeRoot⟩
          [(copy'.desc.treeRoot, copy'.desc.totalLen), (copy.desc.treeRoot, copy.desc.totalLen)]) =
      .ok longHead := by decide +kernel
  have hrecord : sessionHead lifeSha ⟨sampleFile.fileId, 0, draftRoot⟩ [(finalRoot, 15), (otherRoot, 14)] =
      longHead := by decide +kernel
  obtain ⟨copy, hsave, hnext⟩ := Except.bind_eq_ok_iff.mp hsession
  obtain ⟨copy', hsave', hhead⟩ := Except.map_eq_ok_iff.mp hnext
  exact ⟨copy, copy', hsave, hsave', session_head_pins_saves (hhead.trans hrecord.symm)⟩

/-! ### Histories -/

section Histories

variable (sha : Sha2) (blake3 : List UInt8 → Digest) (c : XChaCha)

/-- A copy that came about by packing and saving, with the document that it means. -/
inductive Copy.Made (file : EditedFile) : List Sheet → Copy → Prop
  | packed {γ σ ε : Type} {rng : Rng γ} {source : Source ε σ} {src src' : σ} {plain payload : List UInt8}
      {d d' : γ} {sealed : Sealed} (area : List UInt8) (hplain : Delivers source src plain)
      (hstream : sealChunks sha blake3 c file.toStreamCall rng source collect ⟨src, [], d⟩ =
        .ok (sealed, ⟨src', payload, d'⟩)) :
      Made file (drafts rng d (pieces file.chunkSize.toNat plain)) (packedCopy sealed area payload)
  | saved {doc : List Sheet} {copy copy' : Copy} {s : Save} (made : Made file doc copy)
      (hsave : copy.save sha blake3 c file s = .ok copy') : Made file (revise doc s.changes) copy'

/-- BLAKE3 has a collision in the trees of two copies, whose chunks are what their documents are sealed to. -/
def Copy.TreesCollide (file file' : EditedFile) (doc doc' : List Sheet) (copy copy' : Copy) : Prop :=
  ∃ chunks chunks', SealsWith sha blake3 c file.toStreamCall doc copy chunks ∧
    SealsWith sha blake3 c file'.toStreamCall doc' copy' chunks' ∧ ChunksCollide blake3 chunks chunks'

variable {sha blake3 c} {file file' : EditedFile} {doc doc' : List Sheet} {copy copy' base base' : Copy}
  {s s' : Save} {chunks chunks' : List Chunk}

/-- A file that is packed and edited at all: the cipher is one that is executed, and the chunk size is admitted. -/
structure EditedFile.Supported (file : EditedFile) : Prop where
  alg : file.alg.ensureSupported = .ok ()
  chunkSize : checkChunkSize file.chunkSize = .ok file.chunkSize

/-- **Every copy seals its document.** -/
theorem Copy.Made.exists_sealsWith (hc : c.Lawful) (hfile : file.Supported)
    (h : Copy.Made sha blake3 c file doc copy) :
    ∃ chunks, SealsWith sha blake3 c file.toStreamCall doc copy chunks := by
  -- by induction on how the copy was made: it was packed, or a copy was saved
  induction h with
  | packed area hplain hstream => exact sealsWith_of_sealChunks hc hfile.alg hfile.chunkSize hplain hstream _
  | saved made hsave ih =>
    obtain ⟨chunks, hseals⟩ := ih
    exact (hseals.save hc hsave).1

namespace Copy.SealsWith

theorem leafOf (h : SealsWith sha blake3 c file.toStreamCall doc copy chunks) {i : ℕ} {chunk : Chunk}
    (hchunk : chunks[i]? = some chunk) : Edit.LeafOf blake3 (UInt32.ofNat i) chunk := by
  have hi := (List.getElem?_eq_some_iff.mp hchunk).1
  rw [h.length] at hi
  exact (h.sealed_at i _ chunk (List.getElem?_eq_getElem hi) hchunk).leafOf

/-- The same chunks are one text under one key. -/
theorem content_eq (hc : c.Lawful) {call : StreamCall} (h : SealsWith sha blake3 c call doc copy chunks)
    (h' : SealsWith sha blake3 c call doc' copy' chunks) : content doc = content doc' := by
  suffices htexts : doc.map Sheet.text = doc'.map Sheet.text by rw [content, content, htexts]
  have hlength : doc.length = doc'.length := h.length.symm.trans h'.length
  refine List.ext_getElem (by rw [List.length_map, List.length_map, hlength]) fun i hi hi' ↦ ?_
  rw [List.length_map] at hi hi'
  have hchunk : i < chunks.length := h.length ▸ hi
  have hopen := h.openChunk hc (List.getElem?_eq_getElem hi) (List.getElem?_eq_getElem hchunk)
    (le_max_left _ (doc'[i]).text.length)
  have hopen' := h'.openChunk hc (List.getElem?_eq_getElem hi') (List.getElem?_eq_getElem hchunk)
    (le_max_right (doc[i]).text.length _)
  rw [List.getElem_map, List.getElem_map]
  exact (Prod.mk.inj (Except.ok.inj (hopen.symm.trans hopen'))).1

/-- Copies with one root have the same chunks, or BLAKE3 has a collision. -/
theorem chunks_eq_or_collide (h : SealsWith sha blake3 c file.toStreamCall doc copy chunks)
    (h' : SealsWith sha blake3 c file'.toStreamCall doc' copy' chunks')
    (hroot : copy.desc.treeRoot = copy'.desc.treeRoot) :
    chunks = chunks' ∨ Copy.TreesCollide sha blake3 c file file' doc doc' copy copy' := by
  obtain ⟨tree, hbuild, htree⟩ := h.root
  obtain ⟨tree', hbuild', htree'⟩ := h'.root
  refine (Engine.chunks_eq_or_collide (fun i chunk hi ↦ h.leafOf hi) (fun i chunk hi ↦ h'.leafOf hi) hbuild hbuild'
    ((htree.symm.trans hroot).trans htree')).imp_right fun hcol ↦ ⟨chunks, chunks', h, h', hcol⟩

end Copy.SealsWith

/-- What a session on top of the copy starts from. -/
def Copy.sessionBase (file : EditedFile) (copy : Copy) : SessionBase :=
  ⟨file.fileId, copy.desc.versionCounter, copy.desc.treeRoot⟩

/-- **An edition carries the head of a session of one save on top of its base.** -/
theorem Copy.sessionHead_of_save (h : base.save sha blake3 c file s = .ok copy) :
    copy.desc.editor.map EditorSignature.sessionHead =
      some (sessionHead sha (base.sessionBase file) [(copy.desc.treeRoot, copy.desc.totalLen)]) := by
  simp only [Copy.save, Except.bind_eq_ok_iff, Prod.exists, Except.ok.injEq] at h
  obtain ⟨u, hprepare, desc, area, payload, hfinish, rfl⟩ := h
  have hdraft : u.desc.editor.map EditorSignature.sessionHead =
      some (sessionHead sha (base.sessionBase file) [(u.desc.treeRoot, u.desc.totalLen)]) := by
    simp only [Edit.prepare, Except.bind_eq_ok_iff, Except.ok.injEq] at hprepare
    obtain ⟨_, -, out, -, tree, -, counter, -, count, -, _, -, body, -, transcript, -, rfl⟩ := hprepare
    rfl
  simp only [Edit.finish, Except.bind_eq_ok_iff, Except.ok.injEq, Prod.mk.injEq] at hfinish
  obtain ⟨_, -, rfl, -⟩ := hfinish
  show (u.desc.editor.map _).map EditorSignature.sessionHead = _
  rw [Option.map_map]
  exact hdraft

/-- **An edition names its base.** Two editions with one session head, whatever the histories of their files, were
made of one file identifier on bases with one counter and the same frames, and are themselves the same frames; under
one key the texts are the same, before and after. Otherwise SHA-256 or BLAKE3 has a collision at what was hashed. -/
theorem edition_names_base (hc : c.Lawful) (hfile : file.Supported) (hfile' : file'.Supported)
    (hmade : Copy.Made sha blake3 c file doc base) (hmade' : Copy.Made sha blake3 c file' doc' base')
    (hsave : base.save sha blake3 c file s = .ok copy) (hsave' : base'.save sha blake3 c file' s' = .ok copy')
    (hhead : copy.desc.editor.map EditorSignature.sessionHead = copy'.desc.editor.map EditorSignature.sessionHead) :
    Merkle.Collides sha.sha256
        (sessionInputs sha (base.sessionBase file) [(copy.desc.treeRoot, copy.desc.totalLen)])
        (sessionInputs sha (base'.sessionBase file') [(copy'.desc.treeRoot, copy'.desc.totalLen)]) ∨
      Copy.TreesCollide sha blake3 c file file' doc doc' base base' ∨
      Copy.TreesCollide sha blake3 c file file' (revise doc s.changes) (revise doc' s'.changes) copy copy' ∨
      file.fileId = file'.fileId ∧ base.desc.versionCounter = base'.desc.versionCounter ∧
        base.payload = base'.payload ∧ copy.payload = copy'.payload ∧ copy.desc.totalLen = copy'.desc.totalLen ∧
        (file.toStreamCall = file'.toStreamCall → content doc = content doc' ∧
          content (revise doc s.changes) = content (revise doc' s'.changes)) := by
  rw [Copy.sessionHead_of_save hsave, Copy.sessionHead_of_save hsave', Option.some_inj] at hhead
  -- the head of one save fixes its base and what it writes
  rcases links_eq_or_collide hhead with hlinks | hcol
  · obtain ⟨hbase, hsaves⟩ := sessionLinks_inj hlinks
    obtain ⟨hfileId, hcounter, hbaseRoot⟩ := SessionBase.mk.inj hbase
    obtain ⟨hroot, htotal⟩ := Prod.mk.inj (List.cons.inj hsaves).1
    obtain ⟨chunks, hseals⟩ := hmade.exists_sealsWith hc hfile
    obtain ⟨chunks', hseals'⟩ := hmade'.exists_sealsWith hc hfile'
    obtain ⟨⟨next, hnext⟩, -⟩ := hseals.save hc hsave
    obtain ⟨⟨next', hnext'⟩, -⟩ := hseals'.save hc hsave'
    -- and the roots fix the chunks, or the trees collide
    rcases hseals.chunks_eq_or_collide hseals' hbaseRoot with rfl | hcol
    · rcases hnext.chunks_eq_or_collide hnext' hroot with rfl | hcol
      · refine Or.inr (Or.inr (Or.inr ⟨hfileId, hcounter, hseals.payload.trans hseals'.payload.symm,
          hnext.payload.trans hnext'.payload.symm, htotal, fun hcall ↦ ?_⟩))
        rw [← hcall] at hseals' hnext'
        exact ⟨hseals.content_eq hc hseals', hnext.content_eq hc hnext'⟩
      · exact Or.inr (Or.inr (Or.inl hcol))
    · exact Or.inr (Or.inl hcol)
  · exact Or.inl hcol

/-- Two editors save the final text on top of the draft, each under a certificate of their own: other regions with
one session head, which are the same frames. -/
theorem edition_names_base_twoEditors :
    ∃ copy copy', draftCopy.save lifeSha lifeBlake3 xChaCha20Poly1305 sampleFile finalSave = .ok copy ∧
      draftCopy.save lifeSha lifeBlake3 xChaCha20Poly1305 sampleFile (typing finalText secondCert) = .ok copy' ∧
      copy.area ≠ copy'.area ∧
      (Merkle.Collides lifeSha.sha256
          (sessionInputs lifeSha (draftCopy.sessionBase sampleFile) [(copy.desc.treeRoot, copy.desc.totalLen)])
          (sessionInputs lifeSha (draftCopy.sessionBase sampleFile) [(copy'.desc.treeRoot, copy'.desc.totalLen)]) ∨
        (∃ doc doc' base base', Copy.TreesCollide lifeSha lifeBlake3 xChaCha20Poly1305 sampleFile sampleFile
          doc doc' base base') ∨
        copy.payload = copy'.payload) := by
  obtain ⟨src', hstream⟩ := sealChunks_draft lifeSha.sha256 lifeSha.hmac
  have hmade : Copy.Made lifeSha lifeBlake3 xChaCha20Poly1305 sampleFile
      (drafts zeroRng () (pieces sampleFile.chunkSize.toNat draftText)) draftCopy :=
    .packed [] (delivers_listSource (ε := Empty) draftText) hstream
  have hfile : sampleFile.Supported := ⟨rfl, by decide⟩
  have hsaved : (draftCopy.save lifeSha lifeBlake3 xChaCha20Poly1305 sampleFile finalSave).map
      (fun copy ↦ (copy.desc.editor.map EditorSignature.sessionHead, copy.area.drop 856)) =
        .ok (some finalHead, finalCode.toList) := by decide +kernel
  have hsaved' : (draftCopy.save lifeSha lifeBlake3 xChaCha20Poly1305 sampleFile (typing finalText secondCert)).map
      (fun copy ↦ (copy.desc.editor.map EditorSignature.sessionHead, copy.area.drop 856)) =
        .ok (some finalHead, deviceCode.toList) := by decide +kernel
  obtain ⟨copy, hsave, hvalues⟩ := Except.map_eq_ok_iff.mp hsaved
  obtain ⟨copy', hsave', hvalues'⟩ := Except.map_eq_ok_iff.mp hsaved'
  obtain ⟨hhead, hcode⟩ := Prod.mk.inj hvalues
  obtain ⟨hhead', hcode'⟩ := Prod.mk.inj hvalues'
  refine ⟨copy, copy', hsave, hsave', fun harea ↦ ?_, ?_⟩
  · rw [harea, hcode'] at hcode
    exact absurd hcode (by decide)
  · rcases edition_names_base lawful_xChaCha20Poly1305 hfile hfile hmade hmade hsave hsave'
      (hhead.trans hhead'.symm) with hcol | hcol | hcol | ⟨-, -, -, hpayload, -⟩
    · exact Or.inl hcol
    · exact Or.inr (Or.inl ⟨_, _, _, _, hcol⟩)
    · exact Or.inr (Or.inl ⟨_, _, _, _, hcol⟩)
    · exact Or.inr (Or.inr hpayload)

end Histories

end OpenCrate.Engine
