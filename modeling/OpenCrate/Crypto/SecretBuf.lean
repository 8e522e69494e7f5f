import OpenCrate.Crypto.Aead

/-!
# The buffer for plaintext

`SecretBuf` of `secret` of `oc-crypto`, and `open_chunk` of `aead`, which decrypts inside such a buffer. One
buffer serves for many chunks, so what must hold is about runs of calls in any order (`buffer_keeps_no_past`): the
capacity stays; a call that wipes the buffer, fills it or gives it out as a whole finds nothing of what was there
before; and opening a chunk has the result of the function without a buffer, with the plaintext and zeros behind
it, or zeros alone.

A caller that is lent a part of the buffer may read it and write into it whatever it likes; it cannot change its
length (`Writer`).
-/

namespace OpenCrate.Crypto

/-- A self-wiping plaintext buffer of fixed capacity. -/
structure SecretBuf where
  /-- Its length is the capacity. -/
  bytes : List UInt8
  /-- Number of meaningful bytes from the start. -/
  len : ℕ
  len_le : len ≤ bytes.length

/-- What a caller does with bytes it is lent. -/
structure Writer where
  write : List UInt8 → List UInt8
  length_write : ∀ bytes, (write bytes).length = bytes.length

/-- The cipher over a buffer that holds a ciphertext, with the tag apart: whether the tag is right, and what the
call leaves in the buffer, also where it is wrong. -/
structure InPlaceCipher where
  decrypt : Digest → Nonce → List UInt8 → Tag → List UInt8 → Bool × List UInt8
  length_decrypt : ∀ key nonce aad tag buffer,
    (decrypt key nonce aad tag buffer).2.length = buffer.length

/-- The cipher in a buffer is the cipher. -/
def InPlaceCipher.Of (p : InPlaceCipher) (c : XChaCha) : Prop :=
  ∀ key nonce aad tag buffer, c.decrypt key nonce (buffer ++ tag.toList) aad =
    if (p.decrypt key nonce aad tag buffer).1 then some (p.decrypt key nonce aad tag buffer).2 else none

namespace SecretBuf

/-! ### The source -/

/-- A buffer of the capacity. It will not grow. -/
def withCapacity (capacity : ℕ) : SecretBuf := ⟨List.replicate capacity 0, 0, Nat.zero_le _⟩

def capacity (buf : SecretBuf) : ℕ := buf.bytes.length

/-- Meaningful bytes. -/
def asSlice (buf : SecretBuf) : List UInt8 := buf.bytes.take buf.len

/-- Wipe all contents, including the unused tail. -/
def wipe (buf : SecretBuf) : SecretBuf := ⟨List.replicate buf.bytes.length 0, 0, Nat.zero_le _⟩

/-- Lend the entire buffer, after wiping it. -/
def asCapacityMut (w : Writer) (buf : SecretBuf) : SecretBuf :=
  ⟨w.write buf.wipe.bytes, buf.wipe.len, by rw [w.length_write]; exact buf.wipe.len_le⟩

/-- Declare the meaningful length. -/
def declareLen (len : ℕ) (buf : SecretBuf) : Except CryptoError Unit × SecretBuf :=
  if h : buf.capacity < len then (.error .badLength, buf)
  else (.ok (), ⟨buf.bytes, len, not_lt.mp h⟩)

/-- Lend the declared bytes, without wiping them. -/
def asDeclaredMut (w : Writer) (buf : SecretBuf) : SecretBuf :=
  ⟨w.write (buf.bytes.take buf.len) ++ buf.bytes.drop buf.len, buf.len, by
    rw [List.length_append, w.length_write, ← List.length_append, List.take_append_drop]
    exact buf.len_le⟩

/-- Replace contents with a copy. -/
def fillFrom (src : List UInt8) (buf : SecretBuf) : Except CryptoError Unit × SecretBuf :=
  let buf := buf.wipe
  if buf.bytes.length < src.length then (.error .badLength, buf)
  else (.ok (), ⟨src ++ buf.bytes.drop src.length, src.length, by rw [List.length_append]; omega⟩)

/-- Copying into the first bytes of what is lent. -/
def copyFromSlice (src : List UInt8) : Writer where
  write bytes := (src ++ bytes.drop src.length).take bytes.length
  length_write bytes := by
    rw [List.length_take, List.length_append, List.length_drop]
    omega

variable (blake3 : List UInt8 → Digest) (p : InPlaceCipher)

/-- Decryption in the declared bytes. -/
def openInPlace (key : Digest) (alg : AeadAlg) (nonce : Nonce) (tag : Tag) (aad : List UInt8)
    (out : SecretBuf) : Except CryptoError Unit × SecretBuf :=
  match alg with
  | .xChaCha20Poly1305 =>
    (if (p.decrypt key nonce aad tag (out.bytes.take out.len)).1 then .ok () else .error .authentication,
      out.asDeclaredMut ⟨fun buffer ↦ (p.decrypt key nonce aad tag buffer).2,
        p.length_decrypt key nonce aad tag⟩)
  | .aes256Gcm | .aes256GcmSiv => (.error .unsupportedAlgorithm, out)

/-- One chunk to open. -/
structure Call where
  key : PayloadKey
  alg : AeadAlg
  fileId : List.Vector UInt8 16
  index : UInt32
  nonce : Nonce
  ctAndTag : List UInt8

/-- The chunk opened by the function without a buffer. -/
def Call.opened (c : XChaCha) (call : Call) (capacity : ℕ) : Except CryptoError (List UInt8 × Leaf) :=
  Crypto.openChunk blake3 c call.key call.alg call.fileId call.index call.nonce call.ctAndTag capacity

/-- The body of decryption, before the wiping wrapper. -/
def openChunkInner (call : Call) (out : SecretBuf) : Except CryptoError Leaf × SecretBuf :=
  match splitLastChunk? tagLen call.ctAndTag with
  | none => (.error .badLength, out)
  | some (ct, tag) =>
    let aad := chunkAad call.fileId call.index call.alg
    -- the lent slice is cut to the ciphertext, which a smaller buffer refuses
    if out.capacity < ct.length then (.error .badLength, out.wipe)
    else
      match (out.asCapacityMut (copyFromSlice ct)).declareLen ct.length with
      | (.error e, out) => (.error e, out)
      | (.ok (), out) =>
        match openInPlace p call.key.expose call.alg call.nonce tag aad out with
        | (.error e, out) => (.error e, out)
        | (.ok (), out) => (.ok (leafOf blake3 call.index call.nonce tag ct), out)

/-- Decrypt a chunk into the buffer: the leaf computed from what was read. -/
def openChunk (call : Call) (out : SecretBuf) : Except CryptoError Leaf × SecretBuf :=
  match openChunkInner blake3 p call out.wipe with
  | (.ok leaf, out) => (.ok leaf, out)
  | (.error e, out) => (.error e, out.wipe)

/-! ### One call -/

variable {blake3 p} {c : XChaCha}

@[ext]
theorem ext {a b : SecretBuf} (hbytes : a.bytes = b.bytes) (hlen : a.len = b.len) : a = b := by
  obtain ⟨bytes, len, _⟩ := a
  obtain ⟨bytes', len', _⟩ := b
  obtain rfl : bytes = bytes' := hbytes
  obtain rfl : len = len' := hlen
  rfl

@[simp] theorem capacity_withCapacity (capacity : ℕ) : (withCapacity capacity).capacity = capacity :=
  List.length_replicate

@[simp] theorem wipe_eq (buf : SecretBuf) : buf.wipe = withCapacity buf.capacity := rfl

@[simp] theorem capacity_asCapacityMut (w : Writer) (buf : SecretBuf) :
    (buf.asCapacityMut w).capacity = buf.capacity := by
  rw [capacity, asCapacityMut, w.length_write, wipe_eq]
  exact capacity_withCapacity _

@[simp] theorem capacity_asDeclaredMut (w : Writer) (buf : SecretBuf) :
    (buf.asDeclaredMut w).capacity = buf.capacity := by
  rw [capacity, asDeclaredMut, List.length_append, w.length_write, ← List.length_append,
    List.take_append_drop]
  rfl

@[simp] theorem capacity_declareLen (len : ℕ) (buf : SecretBuf) :
    (buf.declareLen len).2.capacity = buf.capacity := by
  rw [declareLen]
  split_ifs
  · rfl
  · rfl

@[simp] theorem capacity_fillFrom (src : List UInt8) (buf : SecretBuf) :
    (buf.fillFrom src).2.capacity = buf.capacity := by
  have hwiped : buf.wipe.bytes.length = buf.bytes.length := List.length_replicate
  rw [fillFrom]
  split_ifs with hlen
  · exact hwiped
  · show (src ++ buf.wipe.bytes.drop src.length).length = buf.bytes.length
    rw [List.length_append, List.length_drop]
    omega

/-- The buffer with some bytes and nothing else. -/
def holding (capacity : ℕ) (src : List UInt8) : SecretBuf := ((withCapacity capacity).fillFrom src).2

theorem holding_of_le {capacity : ℕ} {src : List UInt8} (h : src.length ≤ capacity) :
    (holding capacity src).bytes = src ++ List.replicate (capacity - src.length) 0 ∧
      (holding capacity src).len = src.length := by
  have hwiped : (withCapacity capacity).wipe.bytes = List.replicate capacity 0 := by
    rw [wipe_eq, capacity_withCapacity]
    rfl
  have hle : ¬(withCapacity capacity).wipe.bytes.length < src.length := by
    rw [hwiped, List.length_replicate]
    exact not_lt.mpr h
  rw [holding, fillFrom, if_neg hle, ← List.drop_replicate, ← hwiped]
  exact ⟨rfl, rfl⟩

@[simp] theorem capacity_holding (capacity : ℕ) (src : List UInt8) :
    (holding capacity src).capacity = capacity := by
  rw [holding, capacity_fillFrom, capacity_withCapacity]

/-- What a reader sees in such a buffer. -/
theorem asSlice_holding {capacity : ℕ} {src : List UInt8} (h : src.length ≤ capacity) :
    (holding capacity src).asSlice = src := by
  obtain ⟨hbytes, hlen⟩ := holding_of_le h
  rw [asSlice, hbytes, hlen, List.take_left]

/-- The ciphertext is in the buffer, and nothing else. -/
theorem declareLen_copy {capacity : ℕ} {ct : List UInt8} (h : ct.length ≤ capacity) :
    ((withCapacity capacity).asCapacityMut (copyFromSlice ct)).declareLen ct.length =
      (.ok (), holding capacity ct) := by
  have hcopy : ((withCapacity capacity).asCapacityMut (copyFromSlice ct)).bytes =
      ct ++ List.replicate (capacity - ct.length) 0 := by
    show (ct ++ (List.replicate _ (0 : UInt8)).drop ct.length).take (List.replicate _ 0).length = _
    have hlength : (withCapacity capacity).bytes.length = capacity := List.length_replicate
    rw [List.length_replicate, List.drop_replicate, hlength]
    refine List.take_of_length_le ?_
    rw [List.length_append, List.length_replicate]
    omega
  obtain ⟨hbytes, hlen⟩ := holding_of_le h
  have hroom : ¬((withCapacity capacity).asCapacityMut (copyFromSlice ct)).capacity < ct.length := by
    rw [capacity_asCapacityMut, capacity_withCapacity]
    exact not_lt.mpr h
  rw [declareLen, dif_neg hroom]
  exact Prod.ext rfl (ext (hcopy.trans hbytes.symm) hlen.symm)

/-- Writing into the declared bytes of such a buffer. -/
theorem asDeclaredMut_holding {capacity : ℕ} {src : List UInt8} (h : src.length ≤ capacity) (w : Writer) :
    (holding capacity src).asDeclaredMut w = holding capacity (w.write src) := by
  obtain ⟨hbytes, hlen⟩ := holding_of_le h
  obtain ⟨hbytes', hlen'⟩ := holding_of_le ((w.length_write src).trans_le h)
  refine ext ?_ ?_
  · show w.write ((holding capacity src).bytes.take _) ++ (holding capacity src).bytes.drop _ = _
    rw [hbytes', hbytes, hlen, List.take_left, List.drop_left, w.length_write]
  · rw [hlen', w.length_write]
    exact hlen

/-- **Opening a chunk in a buffer**, whatever is in it, has the result of opening it without one. -/
theorem openChunk_eq (hp : p.Of c) (call : Call) (out : SecretBuf) :
    openChunk blake3 p call out =
      match call.opened blake3 c out.capacity with
      | .ok (plaintext, leaf) => (.ok leaf, holding out.capacity plaintext)
      | .error e => (.error e, withCapacity out.capacity) := by
  rw [openChunk, openChunkInner, Call.opened, Crypto.openChunk, wipe_eq]
  cases hsplit : splitLastChunk? tagLen call.ctAndTag with
  | none =>
    simp only [wipe_eq, capacity_withCapacity]
    rfl
  | some parts =>
    obtain ⟨ct, tag⟩ := parts
    simp only [capacity_withCapacity, Except.okOr_some, Except.ok_bind]
    by_cases hroom : out.capacity < ct.length
    · simp only [if_pos hroom, Except.refuseIf_eq_error_iff.mpr ⟨hroom, rfl⟩, wipe_eq, capacity_withCapacity]
      rfl
    · have hheld := holding_of_le (not_lt.mp hroom)
      have hdeclared : (holding out.capacity ct).bytes.take (holding out.capacity ct).len = ct := by
        rw [hheld.1, hheld.2, List.take_left]
      rw [if_neg hroom, Except.refuseIf_of_not hroom, declareLen_copy (not_lt.mp hroom)]
      simp only [Except.ok_bind]
      cases halg : call.alg with
      | xChaCha20Poly1305 =>
        have hdecrypt := hp call.key.expose call.nonce (chunkAad call.fileId call.index .xChaCha20Poly1305) tag ct
        simp only [openInPlace, openWith, hdeclared, hdecrypt, asDeclaredMut_holding (not_lt.mp hroom)]
        split_ifs with htag
        · rfl
        · simp only [wipe_eq, capacity_holding]
          rfl
      | aes256Gcm =>
        simp only [openInPlace, openWith, wipe_eq, capacity_holding]
        rfl
      | aes256GcmSiv =>
        simp only [openInPlace, openWith, wipe_eq, capacity_holding]
        rfl

/-! ### Runs of calls -/

/-- What a holder of the buffer can call. -/
inductive Op
  | wipe
  | fillFrom (src : List UInt8)
  | asCapacityMut (w : Writer)
  | declareLen (len : ℕ)
  | asDeclaredMut (w : Writer)
  | openChunk (call : Call)

variable (blake3 p) in
/-- The buffer after a call. -/
def step (buf : SecretBuf) : Op → SecretBuf
  | .wipe => buf.wipe
  | .fillFrom src => (buf.fillFrom src).2
  | .asCapacityMut w => buf.asCapacityMut w
  | .declareLen len => (buf.declareLen len).2
  | .asDeclaredMut w => buf.asDeclaredMut w
  | .openChunk call => (buf.openChunk blake3 p call).2

/-- The calls that leave nothing of what was in the buffer. -/
def Op.resets : Op → Bool
  | .wipe | .fillFrom _ | .asCapacityMut _ | .openChunk _ => true
  | .declareLen _ | .asDeclaredMut _ => false

variable (blake3 p) in
/-- The buffer after some calls. -/
def run (buf : SecretBuf) (ops : List Op) : SecretBuf := ops.foldl (step blake3 p) buf

theorem capacity_openChunk (hp : p.Of c) (call : Call) (out : SecretBuf) :
    (out.openChunk blake3 p call).2.capacity = out.capacity := by
  rw [openChunk_eq hp]
  split
  · exact capacity_holding _ _
  · exact capacity_withCapacity _

/-- No call changes the capacity. -/
theorem capacity_step (hp : p.Of c) (buf : SecretBuf) (op : Op) :
    (step blake3 p buf op).capacity = buf.capacity := by
  cases op with
  | wipe => exact capacity_withCapacity _
  | fillFrom src => exact capacity_fillFrom src buf
  | asCapacityMut w => exact capacity_asCapacityMut w buf
  | declareLen len => exact capacity_declareLen len buf
  | asDeclaredMut w => exact capacity_asDeclaredMut w buf
  | openChunk call => exact capacity_openChunk hp call buf

/-- The buffer never grows. -/
theorem capacity_run (hp : p.Of c) (buf : SecretBuf) (ops : List Op) :
    (run blake3 p buf ops).capacity = buf.capacity := by
  induction ops generalizing buf with
  | nil => rfl
  | cons op ops ih => exact (ih _).trans (capacity_step hp buf op)

/-- Such a call does to every buffer of a capacity what it does to a new one. -/
theorem step_of_resets (hp : p.Of c) {op : Op} (hop : op.resets = true) (buf : SecretBuf) :
    step blake3 p buf op = step blake3 p (withCapacity buf.capacity) op := by
  cases op with
  | wipe => simp only [step, wipe_eq, capacity_withCapacity]
  | fillFrom src =>
    simp only [step, fillFrom, wipe_eq, capacity_withCapacity]
    rfl
  | asCapacityMut w =>
    simp only [step, asCapacityMut, wipe_eq, capacity_withCapacity]
  | declareLen len => cases hop
  | asDeclaredMut w => cases hop
  | openChunk call =>
    simp only [step, openChunk_eq hp, capacity_withCapacity]

/-- What is decrypted has the length of the ciphertext, so it is in the buffer. -/
theorem length_le_of_opened (hp : p.Of c) {call : Call} {capacity : ℕ} {plaintext : List UInt8}
    {leaf : Leaf} (h : call.opened blake3 c capacity = .ok (plaintext, leaf)) :
    plaintext.length ≤ capacity := by
  simp only [Call.opened, Crypto.openChunk, Except.bind_eq_ok_iff, Prod.exists, Except.refuseIf_eq_ok_iff,
    openWith_eq_ok_iff, Except.ok.injEq, Prod.mk.injEq] at h
  obtain ⟨ct, tag, -, _, hroom, _, ⟨-, hdecrypt⟩, rfl, -⟩ := h
  rw [hp] at hdecrypt
  split_ifs at hdecrypt
  rw [← Option.some_inj.mp hdecrypt, p.length_decrypt]
  exact not_lt.mp hroom

/-- **A buffer keeps no past.** After any calls, in any order, opening a chunk has the result of the function
without a buffer: the reader sees the plaintext with zeros behind it, or zeros alone. And where the buffer is
wiped, filled, lent as a whole or opened into, it goes on as a new buffer does. -/
theorem buffer_keeps_no_past (hp : p.Of c) (capacity : ℕ) (history : List Op) :
    (run blake3 p (withCapacity capacity) history).capacity = capacity ∧
    (∀ call, (run blake3 p (withCapacity capacity) history).openChunk blake3 p call =
      match call.opened blake3 c capacity with
      | .ok (plaintext, leaf) => (.ok leaf, holding capacity plaintext)
      | .error e => (.error e, withCapacity capacity)) ∧
    (∀ (call : Call) plaintext leaf, call.opened blake3 c capacity = .ok (plaintext, leaf) →
      (holding capacity plaintext).asSlice = plaintext ∧
        (holding capacity plaintext).bytes = plaintext ++ List.replicate (capacity - plaintext.length) 0) ∧
    ∀ op rest, op.resets = true → run blake3 p (withCapacity capacity) (history ++ op :: rest) =
      run blake3 p (withCapacity capacity) (op :: rest) := by
  have hcapacity : (run blake3 p (withCapacity capacity) history).capacity = capacity := by
    rw [capacity_run hp, capacity_withCapacity]
  refine ⟨hcapacity, fun call ↦ ?_, fun call plaintext leaf h ↦ ?_, fun op rest hop ↦ ?_⟩
  · rw [openChunk_eq hp, hcapacity]
  · have hle := length_le_of_opened hp h
    exact ⟨asSlice_holding hle, (holding_of_le hle).1⟩
  · have hstep : step blake3 p (run blake3 p (withCapacity capacity) history) op =
        step blake3 p (withCapacity capacity) op := by
      rw [step_of_resets hp hop, hcapacity]
    rw [run, List.foldl_append, List.foldl_cons]
    exact congrArg (fun buf ↦ List.foldl (step blake3 p) buf rest) hstep

/-- The ciphertext of the word `crate` under the zero key and the zero nonce, for the first chunk of the zero
identifier. -/
def crateCt : List UInt8 := [0x1b, 0xec, 0xf7, 0xfd, 0x80]

/-- Its tag. -/
def crateTag : Tag :=
  ⟨[0x8a, 0x14, 0x48, 0xdc, 0x64, 0xe7, 0x30, 0xb9, 0x93, 0xca, 0x54, 0x91, 0xe4, 0xd4, 0x2c, 0xa8], rfl⟩

/-- Its leaf. -/
def crateLeaf : Digest :=
  ⟨[0xfb, 0x0a, 0xa1, 0xa7, 0xba, 0x58, 0x37, 0x88, 0xd9, 0x57, 0x1e, 0x8f, 0xef, 0xa1, 0x8f, 0xb2,
    0x07, 0xca, 0xcb, 0x99, 0x4d, 0x5e, 0x94, 0xcb, 0x0f, 0x67, 0x3e, 0x11, 0x41, 0x7b, 0x53, 0x1a], rfl⟩

/-- The cipher as it is at this chunk, in a buffer. -/
def crateInPlace : InPlaceCipher where
  decrypt _ _ _ tag buffer :=
    if tag = crateTag ∧ buffer = crateCt then (true, [0x63, 0x72, 0x61, 0x74, 0x65]) else (false, buffer)
  length_decrypt key nonce aad tag buffer := by
    split_ifs with h
    · rw [h.2]
      rfl
    · rfl

/-- The cipher as it is at this chunk. -/
def crateCipher : XChaCha where
  encrypt _ _ _ _ := some (crateCt ++ crateTag.toList)
  decrypt _ _ sealed _ :=
    if sealed = crateCt ++ crateTag.toList then some [0x63, 0x72, 0x61, 0x74, 0x65] else none

/-- Opening in place agrees with the cipher that it stands for. -/
theorem of_crateCipher : crateInPlace.Of crateCipher := by
  intro key nonce aad tag buffer
  show (if buffer ++ tag.toList = crateCt ++ crateTag.toList then _ else _) = _
  have hsplit : buffer ++ tag.toList = crateCt ++ crateTag.toList ↔ tag = crateTag ∧ buffer = crateCt := by
    rw [List.append_eq_append_iff_of_size_eq_right (by rw [tag.toList_length, crateTag.toList_length])]
    exact and_comm.trans (and_congr_left fun _ ↦ List.Vector.toList_injective.eq_iff)
  rw [crateInPlace]
  by_cases h : tag = crateTag ∧ buffer = crateCt
  · simp only [if_pos h, if_pos (hsplit.mpr h), if_true]
  · simp only [if_neg h, if_neg fun heq ↦ h (hsplit.mp heq), Bool.false_eq_true, if_false]

/-- The chunk, to be opened. -/
def crateCall : Call :=
  ⟨⟨List.Vector.replicate 32 0⟩, .xChaCha20Poly1305, List.Vector.replicate 16 0, 0,
    List.Vector.replicate 24 0, crateCt ++ crateTag.toList⟩

/-- A long text in the buffer, then a chunk that is cut short, then the chunk: what is seen is the chunk. -/
theorem buffer_keeps_no_past_crate :
    ((run (fun _ ↦ crateLeaf) crateInPlace (withCapacity 8) [.fillFrom [1, 2, 3, 4, 5, 6, 7, 8],
        .openChunk { crateCall with ctAndTag := crateTag.toList }]).openChunk (fun _ ↦ crateLeaf) crateInPlace
          crateCall).2.bytes = [0x63, 0x72, 0x61, 0x74, 0x65, 0, 0, 0] := by
  have hopened : crateCall.opened (fun _ ↦ crateLeaf) crateCipher 8 =
      .ok ([0x63, 0x72, 0x61, 0x74, 0x65], ⟨crateLeaf⟩) := by rfl
  obtain ⟨-, hopen, hread, -⟩ := @buffer_keeps_no_past (fun _ ↦ crateLeaf) crateInPlace crateCipher of_crateCipher 8
    [.fillFrom [1, 2, 3, 4, 5, 6, 7, 8], .openChunk { crateCall with ctAndTag := crateTag.toList }]
  rw [hopen crateCall, hopened]
  exact (hread crateCall _ _ hopened).2

end SecretBuf

end OpenCrate.Crypto
