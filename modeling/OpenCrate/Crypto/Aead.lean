import OpenCrate.Crypto.Kdf
import OpenCrate.Crypto.Merkle
import OpenCrate.Data.ChaCha

/-!
# Encryption of chunks

`aead` of `oc-crypto`: a chunk is a nonce, a ciphertext and a tag, bound to its file and to its
position by the associated data. The writer gives a random seed and never a nonce; the reader takes
the nonce that is stored.

The cipher is a parameter (`XChaCha`), with what is documented about it as a structure of laws.
-/

namespace OpenCrate.Crypto

open Except (refuseIf okOr)

/-- Length of the stored nonce. -/
def nonceLen : ℕ := 24

/-- Authentication tag length. -/
def tagLen : ℕ := 16

/-- A stored nonce. -/
abbrev Nonce := List.Vector UInt8 nonceLen

/-- An authentication tag. -/
abbrev Tag := List.Vector UInt8 tagLen

/-! ### The cipher -/

/-- XChaCha20-Poly1305 under a key and a nonce, over a message and associated data. The result of
encryption is the ciphertext with the tag behind it. -/
structure XChaCha where
  encrypt : Digest → Nonce → List UInt8 → List UInt8 → Option (List UInt8)
  decrypt : Digest → Nonce → List UInt8 → List UInt8 → Option (List UInt8)

namespace XChaCha

/-- What is documented about the cipher. Its only reason to refuse encryption is a message that is
longer than the format can have. -/
structure Lawful (c : XChaCha) : Prop where
  exists_encrypt : ∀ key nonce {message : List UInt8} (aad), message.length < 2 ^ 32 →
    ∃ sealed, c.encrypt key nonce message aad = some sealed
  length_encrypt : ∀ {key nonce message aad sealed},
    c.encrypt key nonce message aad = some sealed → sealed.length = message.length + tagLen
  decrypt_encrypt : ∀ {key nonce message aad sealed},
    c.encrypt key nonce message aad = some sealed →
      c.decrypt key nonce sealed aad = some message

end XChaCha

/-- The last bytes of a list, apart from the ones before them. -/
def splitLastChunk? (n : ℕ) (l : List UInt8) : Option (List UInt8 × List.Vector UInt8 n) :=
  if n ≤ l.length then (toVector? n (l.drop (l.length - n))).map (l.take (l.length - n), ·)
  else none

theorem splitLastChunk?_eq_some_iff {n : ℕ} {l rest : List UInt8} {last : List.Vector UInt8 n} :
    splitLastChunk? n l = some (rest, last) ↔ l = rest ++ last.toList := by
  rw [splitLastChunk?]
  constructor
  · intro h
    split_ifs at h with hn
    simp only [Option.map_eq_some_iff, toVector?_eq_some_iff, Prod.mk.injEq] at h
    obtain ⟨v, hdrop, rfl, rfl⟩ := h
    rw [← hdrop, List.take_append_drop]
  · rintro rfl
    have hlen : (rest ++ last.toList).length - n = rest.length := by
      rw [List.length_append, last.toList_length, Nat.add_sub_cancel]
    rw [if_pos (by rw [List.length_append, last.toList_length]; omega), hlen,
      List.drop_left, List.take_left, toVector?_eq_some_iff.mpr rfl]
    rfl

/-- The cipher itself, with the limit of its block counter. -/
def xChaCha20Poly1305 : XChaCha where
  encrypt key nonce message aad :=
    let ct := ChaCha.apply key.toList nonce.toList message
    if message.length / 64 < 2 ^ 32 - 1 then some (ct ++ ChaCha.tag key.toList nonce.toList ct aad) else none
  decrypt key nonce sealed aad := do
    let (ct, tag) ← splitLastChunk? tagLen sealed
    if ct.length / 64 < 2 ^ 32 - 1 ∧ ChaCha.tag key.toList nonce.toList ct aad = tag.toList then
      some (ChaCha.apply key.toList nonce.toList ct)
    else none

/-- The cipher seals what its block counter can cover. -/
theorem xChaCha20Poly1305_encrypt_eq_some_iff {key : Digest} {nonce : Nonce} {message aad sealed : List UInt8} :
    xChaCha20Poly1305.encrypt key nonce message aad = some sealed ↔
      message.length / 64 < 2 ^ 32 - 1 ∧ ChaCha.apply key.toList nonce.toList message ++
        ChaCha.tag key.toList nonce.toList (ChaCha.apply key.toList nonce.toList message) aad = sealed :=
  Option.ite_none_right_eq_some.trans (and_congr_right fun _ ↦ Option.some_inj)

/-- It opens what carries the right tag. -/
theorem xChaCha20Poly1305_decrypt_eq_some_iff {key : Digest} {nonce : Nonce} {message aad sealed : List UInt8} :
    xChaCha20Poly1305.decrypt key nonce sealed aad = some message ↔
      ∃ (ct : List UInt8) (tag : Tag), sealed = ct ++ tag.toList ∧
        (ct.length / 64 < 2 ^ 32 - 1 ∧ ChaCha.tag key.toList nonce.toList ct aad = tag.toList) ∧
        ChaCha.apply key.toList nonce.toList ct = message := by
  simp only [xChaCha20Poly1305, Option.bind_eq_bind, Option.bind_eq_some_iff, Prod.exists,
    splitLastChunk?_eq_some_iff, Option.ite_none_right_eq_some, Option.some_inj]

/-- **The cipher has the laws that are documented about it.** -/
theorem lawful_xChaCha20Poly1305 : xChaCha20Poly1305.Lawful where
  exists_encrypt key nonce message aad hlen :=
    ⟨_, xChaCha20Poly1305_encrypt_eq_some_iff.mpr ⟨by omega, rfl⟩⟩
  length_encrypt := by
    intro key nonce message aad sealed h
    obtain ⟨-, rfl⟩ := xChaCha20Poly1305_encrypt_eq_some_iff.mp h
    rw [List.length_append, ChaCha.length_apply key.toList_length nonce.toList_length, ChaCha.length_tag]
    rfl
  decrypt_encrypt := by
    intro key nonce message aad sealed h
    obtain ⟨hlen, rfl⟩ := xChaCha20Poly1305_encrypt_eq_some_iff.mp h
    have hct := ChaCha.length_apply key.toList_length nonce.toList_length message
    refine xChaCha20Poly1305_decrypt_eq_some_iff.mpr ⟨_, ⟨_, ChaCha.length_tag _ _⟩, rfl, ⟨?_, rfl⟩, ?_⟩
    · rwa [hct]
    · exact ChaCha.apply_apply key.toList_length nonce.toList_length message

variable (sha : Sha2) (blake3 : List UInt8 → Digest) (c : XChaCha)

/-- The leaf of a chunk. -/
def leafOf (index : UInt32) (nonce : Nonce) (tag : Tag) (ct : List UInt8) : Leaf :=
  ⟨blake3 ([0x00] ++ Label.leaf.asBytes ++ toBeBytes index ++
    toBeBytes (UInt64.ofNat ct.length) ++ nonce.toList ++ tag.toList ++ ct)⟩

/-! ### Chunks -/

/-- Chunk associated data: the file, the position and the algorithm. -/
def chunkAad (fileId : List.Vector UInt8 16) (index : UInt32) (alg : AeadAlg) : List UInt8 :=
  Label.chunk.asBytes ++ fileId.toList ++ toBeBytes index ++ [alg.toU8]

/-- Private-metadata associated data. -/
def metadataAad (fileId : List.Vector UInt8 16) : List UInt8 :=
  Label.privateMeta.asBytes ++ fileId.toList

/-- The sole selection point for encryption. -/
def sealWith (key : Digest) (alg : AeadAlg) (nonce : Nonce) (plaintext aad : List UInt8) :
    Except CryptoError (List UInt8) :=
  match alg with
  | .xChaCha20Poly1305 => okOr (c.encrypt key nonce plaintext aad) .badLength
  | .aes256Gcm | .aes256GcmSiv => .error .unsupportedAlgorithm

/-- Decryption, of the ciphertext and the tag behind it. -/
def openWith (key : Digest) (alg : AeadAlg) (nonce : Nonce) (ctAndTag aad : List UInt8) :
    Except CryptoError (List UInt8) :=
  match alg with
  | .xChaCha20Poly1305 => okOr (c.decrypt key nonce ctAndTag aad) .authentication
  | .aes256Gcm | .aes256GcmSiv => .error .unsupportedAlgorithm

/-- Encrypt a chunk under a nonce: what follows the nonce, and the leaf. -/
def sealChunkWithAad (key : PayloadKey) (alg : AeadAlg) (index : UInt32) (nonce : Nonce)
    (plaintext aad : List UInt8) : Except CryptoError (List UInt8 × Leaf) := do
  let sealed ← sealWith c key.expose alg nonce plaintext aad
  let (ct, tag) ← okOr (splitLastChunk? tagLen sealed) .badLength
  .ok (sealed, leafOf blake3 index nonce tag ct)

/-- Seal a chunk with a nonce derived from a seed: the nonce, what follows it, and the leaf. -/
def sealChunkHedged (key : PayloadKey) (alg : AeadAlg) (fileId : List.Vector UInt8 16)
    (index : UInt32) (nonceSeed : Nonce) (plaintext : List UInt8) :
    Except CryptoError (Nonce × List UInt8 × Leaf) := do
  let aad := chunkAad fileId index alg
  let nonce ← Kdf.hedgedNonce sha nonceLen .frameNonce nonceSeed.toList plaintext aad
  let (framed, leaf) ← sealChunkWithAad blake3 c key alg index nonce plaintext aad
  .ok (nonce, framed, leaf)

/-- Decrypt a chunk into a buffer of the capacity: the plaintext, and the leaf computed from what was
read. -/
def openChunk (key : PayloadKey) (alg : AeadAlg) (fileId : List.Vector UInt8 16) (index : UInt32)
    (nonce : Nonce) (ctAndTag : List UInt8) (capacity : ℕ) :
    Except CryptoError (List UInt8 × Leaf) := do
  let (ct, tag) ← okOr (splitLastChunk? tagLen ctAndTag) .badLength
  let aad := chunkAad fileId index alg
  refuseIf (capacity < ct.length) .badLength
  let plaintext ← openWith c key.expose alg nonce (ct ++ tag.toList) aad
  .ok (plaintext, leafOf blake3 index nonce tag ct)

/-- Seal private metadata with a nonce derived from a seed. -/
def sealMetadataHedged (key : MetaKey) (fileId : List.Vector UInt8 16) (nonceSeed : Nonce)
    (plaintext : List UInt8) : Except CryptoError (Nonce × List UInt8) := do
  let aad := metadataAad fileId
  let nonce ← Kdf.hedgedNonce sha nonceLen .metaNonce nonceSeed.toList plaintext aad
  let ct ← sealWith c key.expose .xChaCha20Poly1305 nonce plaintext aad
  .ok (nonce, ct)

/-! ### What a sealed chunk is -/

section Chunks

variable {sha blake3 c} {key : PayloadKey} {alg : AeadAlg} {fileId : List.Vector UInt8 16}
  {index : UInt32} {nonceSeed nonce : Nonce} {plaintext framed : List UInt8} {leaf : Leaf}

theorem length_chunkAad (fileId : List.Vector UInt8 16) (index : UInt32) (alg : AeadAlg) :
    (chunkAad fileId index alg).length = 32 := by
  have hindex : (toBeBytes index).length = 4 := by
    rw [toBeBytes, List.length_reverse]
    exact length_toLeBytes index
  simp only [chunkAad, List.length_append, fileId.toList_length, hindex]
  rfl

/-- Sealing asks for a supported algorithm first. -/
theorem sealWith_eq_ok_iff {key : Digest} {aad sealed : List UInt8} :
    sealWith c key alg nonce plaintext aad = .ok sealed ↔
      alg.ensureSupported = .ok () ∧ c.encrypt key nonce plaintext aad = some sealed := by
  cases alg <;> simp [sealWith, AeadAlg.ensureSupported]

theorem openWith_eq_ok_iff {key : Digest} {aad sealed : List UInt8} :
    openWith c key alg nonce sealed aad = .ok plaintext ↔
      alg.ensureSupported = .ok () ∧ c.decrypt key nonce sealed aad = some plaintext := by
  cases alg <;> simp [openWith, AeadAlg.ensureSupported]

/-- **What sealing a chunk gives.** -/
theorem sealChunkHedged_eq_ok_iff :
    sealChunkHedged sha blake3 c key alg fileId index nonceSeed plaintext =
        .ok (nonce, framed, leaf) ↔
      Kdf.hedgedNonce sha nonceLen .frameNonce nonceSeed.toList plaintext
          (chunkAad fileId index alg) = .ok nonce ∧
        alg.ensureSupported = .ok () ∧
        c.encrypt key.expose nonce plaintext (chunkAad fileId index alg) = some framed ∧
        ∃ ct tag, framed = ct ++ tag.toList ∧ leaf = leafOf blake3 index nonce tag ct := by
  simp only [sealChunkHedged, sealChunkWithAad, Except.bind_eq_ok_iff, Except.okOr_eq_ok_iff,
    Prod.exists, splitLastChunk?_eq_some_iff, sealWith_eq_ok_iff, Except.ok.injEq, Prod.mk.injEq]
  constructor
  · rintro ⟨nonce', hnonce, framed', leaf', ⟨sealed, ⟨halg, hsealed⟩, ct, tag, hsplit, rfl, rfl⟩,
      rfl, rfl, rfl⟩
    exact ⟨hnonce, halg, hsealed, ct, tag, hsplit, rfl⟩
  · rintro ⟨hnonce, halg, hsealed, ct, tag, hsplit, rfl⟩
    exact ⟨nonce, hnonce, framed, _, ⟨framed, ⟨halg, hsealed⟩, ct, tag, hsplit, rfl, rfl⟩,
      rfl, rfl, rfl⟩

/-- What is sealed has the length of the plaintext and of the tag. -/
theorem length_of_sealChunkHedged (hc : c.Lawful)
    (h : sealChunkHedged sha blake3 c key alg fileId index nonceSeed plaintext =
      .ok (nonce, framed, leaf)) : framed.length = plaintext.length + tagLen := by
  obtain ⟨-, -, hsealed, -⟩ := sealChunkHedged_eq_ok_iff.mp h
  exact hc.length_encrypt hsealed

/-- Sealing succeeds for a plaintext of any length a chunk can have. -/
theorem exists_sealChunkHedged (sha : Sha2) (blake3 : List UInt8 → Digest) (hc : c.Lawful)
    (halg : alg.ensureSupported = .ok ()) (key : PayloadKey) (fileId : List.Vector UInt8 16)
    (index : UInt32) (nonceSeed : Nonce) (hlen : plaintext.length < 2 ^ 32) :
    ∃ nonce framed leaf, sealChunkHedged sha blake3 c key alg fileId index nonceSeed plaintext =
      .ok (nonce, framed, leaf) := by
  have haad : (chunkAad fileId index alg).length < 2 ^ 32 := by
    rw [length_chunkAad]
    omega
  obtain ⟨nonce, hnonce⟩ :=
    Kdf.exists_hedgedNonce sha nonceLen .frameNonce nonceSeed.toList hlen haad
  obtain ⟨framed, hframed⟩ :=
    hc.exists_encrypt key.expose nonce (chunkAad fileId index alg) hlen
  obtain ⟨ct, tag, hsplit⟩ : ∃ ct, ∃ tag : Tag, framed = ct ++ tag.toList := by
    have hlength := hc.length_encrypt hframed
    refine ⟨framed.take plaintext.length, ⟨framed.drop plaintext.length, ?_⟩, ?_⟩
    · rw [List.length_drop, hlength, Nat.add_sub_cancel_left]
    · exact (List.take_append_drop _ _).symm
  exact ⟨nonce, framed, _, sealChunkHedged_eq_ok_iff.mpr
    ⟨hnonce, halg, hframed, ct, tag, hsplit, rfl⟩⟩

/-- **A sealed chunk opens** at its position, and gives the leaf of the writer. -/
theorem openChunk_of_sealChunkHedged (hc : c.Lawful) {capacity : ℕ}
    (hcapacity : plaintext.length ≤ capacity)
    (h : sealChunkHedged sha blake3 c key alg fileId index nonceSeed plaintext =
      .ok (nonce, framed, leaf)) :
    openChunk blake3 c key alg fileId index nonce framed capacity = .ok (plaintext, leaf) := by
  have hlen := length_of_sealChunkHedged hc h
  obtain ⟨-, halg, hsealed, ct, tag, hsplit, rfl⟩ := sealChunkHedged_eq_ok_iff.mp h
  have hct : ct.length = plaintext.length := by
    rw [hsplit, List.length_append, tag.toList_length] at hlen
    exact Nat.add_right_cancel hlen
  have hopen : openWith c key.expose alg nonce (ct ++ tag.toList) (chunkAad fileId index alg) =
      .ok plaintext := by
    rw [← hsplit]
    exact openWith_eq_ok_iff.mpr ⟨halg, hc.decrypt_encrypt hsealed⟩
  rw [openChunk, splitLastChunk?_eq_some_iff.mpr hsplit]
  simp only [Except.okOr_some, Except.ok_bind, hopen,
    Except.refuseIf_of_not (show ¬capacity < ct.length by omega)]

end Chunks

end OpenCrate.Crypto
