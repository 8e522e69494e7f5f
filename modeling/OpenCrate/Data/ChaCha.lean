import OpenCrate.Data.Bytes

/-!
# XChaCha20-Poly1305

The key stream is added to the message byte by byte, and the ciphertext is authenticated together with the
associated data. All that decryption needs of the stream is that it is as long as the message (`apply_apply`), so
that only the numbers of words and bytes of a block have a part in the proofs.
-/

namespace OpenCrate.ChaCha

/-! ### Blocks -/

/-- Rotate to the left. -/
def rotateLeft (x n : UInt32) : UInt32 := x <<< n ||| x >>> (32 - n)

/-- The round function, on four words of the state. -/
def quarterRound (s : List UInt32) (i j k l : ℕ) : List UInt32 :=
  let (a, b, c, d) := (s.getD i 0, s.getD j 0, s.getD k 0, s.getD l 0)
  let a := a + b
  let d := rotateLeft (d ^^^ a) 16
  let c := c + d
  let b := rotateLeft (b ^^^ c) 12
  let a := a + b
  let d := rotateLeft (d ^^^ a) 8
  let c := c + d
  let b := rotateLeft (b ^^^ c) 7
  (((s.set i a).set j b).set k c).set l d

/-- The columns, and the diagonals. -/
def doubleRound (s : List UInt32) : List UInt32 :=
  [(0, 4, 8, 12), (1, 5, 9, 13), (2, 6, 10, 14), (3, 7, 11, 15),
    (0, 5, 10, 15), (1, 6, 11, 12), (2, 7, 8, 13), (3, 4, 9, 14)].foldl
      (fun s (i, j, k, l) ↦ quarterRound s i j k l) s

/-- All the rounds. -/
def permute (s : List UInt32) : List UInt32 := doubleRound^[10] s

/-- The words with the given bytes. -/
def words : List UInt8 → List UInt32
  | a :: b :: c :: d :: rest => UInt32.ofNat (leNat [a, b, c, d]) :: words rest
  | _ => []

/-- What every state begins with. -/
def constants : List UInt32 := [0x61707865, 0x3320646e, 0x79622d32, 0x6b206574]

/-- A block of the key stream. -/
def block (key : List UInt8) (counter : UInt32) (nonce : List UInt8) : List UInt8 :=
  let s := constants ++ words key ++ counter :: words nonce
  (List.zipWith (· + ·) (permute s) s).flatMap toLeBytes

/-- The key of one nonce, from the first sixteen bytes of it. -/
def subkey (key nonce : List UInt8) : List UInt8 :=
  let s := permute (constants ++ words key ++ words nonce)
  (s.take 4 ++ s.drop 12).flatMap toLeBytes

/-- The key stream for so many bytes, in whole blocks. The first block is left to the authenticator. -/
def keystream (key nonce : List UInt8) (len : ℕ) : List UInt8 :=
  (List.range ((len + 63) / 64)).flatMap fun i ↦ block key (UInt32.ofNat (i + 1)) nonce

/-! ### The authenticator -/

/-- The bytes as numbers of sixteen bytes, each with a bit above its bytes. -/
def coefficients (message : List UInt8) : List ℕ :=
  (List.range ((message.length + 15) / 16)).map fun i ↦
    let part := (message.drop (16 * i)).take 16
    leNat part + 256 ^ part.length

/-- The polynomial of the message at the first half of the key, and the second half on top. -/
def poly1305 (key message : List UInt8) : List UInt8 :=
  let r := leNat (key.take 16) &&& 0x0ffffffc0ffffffc0ffffffc0fffffff
  leBytes 16 ((coefficients message).foldl (fun acc m ↦ (acc + m) * r % (2 ^ 130 - 5)) 0 + leNat (key.drop 16))

/-- Zeros up to a multiple of sixteen bytes. -/
def padded (bytes : List UInt8) : List UInt8 := bytes ++ List.replicate ((16 - bytes.length % 16) % 16) 0

/-! ### Messages -/

/-- The stream on top of the message. -/
def mask (stream message : List UInt8) : List UInt8 := List.zipWith (· ^^^ ·) message stream

/-- The nonce that is left for the subkey. -/
def shortNonce (nonce : List UInt8) : List UInt8 := List.replicate 4 0 ++ nonce.drop 16

/-- The key stream of a long nonce. -/
def stream (key nonce : List UInt8) (len : ℕ) : List UInt8 :=
  keystream (subkey key (nonce.take 16)) (shortNonce nonce) len

/-- Encryption and decryption alike. -/
def apply (key nonce message : List UInt8) : List UInt8 := mask (stream key nonce message.length) message

/-- The tag of a ciphertext and its associated data. -/
def tag (key nonce ct aad : List UInt8) : List UInt8 :=
  poly1305 ((block (subkey key (nonce.take 16)) 0 (shortNonce nonce)).take 32)
    (padded aad ++ padded ct ++ leBytes 8 aad.length ++ leBytes 8 ct.length)

/-! ### Lengths -/

section Lengths

variable {s : List UInt32} {key nonce stream message : List UInt8}

@[simp] theorem length_quarterRound (i j k l : ℕ) : (quarterRound s i j k l).length = s.length := by
  simp only [quarterRound, List.length_set]

@[simp] theorem length_doubleRound : (doubleRound s).length = s.length := by
  simp only [doubleRound, List.foldl_cons, List.foldl_nil, length_quarterRound]

/-- The rounds keep the size of the state. -/
@[simp] theorem length_permute : (permute s).length = s.length := by
  have hrounds : ∀ (n : ℕ) (s : List UInt32), (doubleRound^[n] s).length = s.length := by
    intro n
    induction n with
    | zero => exact fun s ↦ rfl
    | succ n ih => exact fun s ↦ by rw [Function.iterate_succ_apply, ih, length_doubleRound]
  exact hrounds 10 s

/-- A word for every four bytes. -/
theorem length_words (bytes : List UInt8) : (words bytes).length = bytes.length / 4 := by
  fun_induction words bytes with
  | case1 a b c d rest ih =>
    rw [List.length_cons, ih]
    simp only [List.length_cons]
    omega
  | case2 bytes hshort =>
    -- fewer than four bytes are no word
    have hlen : bytes.length < 4 := by
      by_contra hfour
      match bytes, hfour with
      | a :: b :: c :: d :: rest, _ => exact hshort a b c d rest rfl
      | [], h | [_], h | [_, _], h | [_, _, _], h => exact h (by simp)
    rw [List.length_nil, Nat.div_eq_of_lt hlen]

theorem length_flatMap_toLeBytes (s : List UInt32) : (s.flatMap toLeBytes).length = 4 * s.length := by
  rw [List.length_flatMap]
  induction s with
  | nil => rfl
  | cons w s ih =>
    rw [List.map_cons, List.sum_cons, ih, length_toLeBytes, List.length_cons, LeInt.width_uint32]
    omega

theorem length_subkey (hkey : key.length = 32) (hnonce : nonce.length = 16) : (subkey key nonce).length = 32 := by
  rw [subkey, length_flatMap_toLeBytes, List.length_append, List.length_take, List.length_drop, length_permute]
  simp only [List.length_append, length_words, hkey, hnonce, constants, List.length_cons, List.length_nil]
  decide

/-- A block has 64 bytes. -/
theorem length_block (hkey : key.length = 32) (hnonce : nonce.length = 12) (counter : UInt32) :
    (block key counter nonce).length = 64 := by
  rw [block, length_flatMap_toLeBytes, List.length_zipWith, length_permute, Nat.min_self]
  simp only [List.length_append, List.length_cons, length_words, hkey, hnonce, constants, List.length_nil]

/-- The stream is as long as what it is for. -/
theorem le_length_keystream (hkey : key.length = 32) (hnonce : nonce.length = 12) (len : ℕ) :
    len ≤ (keystream key nonce len).length := by
  rw [keystream, List.length_flatMap]
  simp only [length_block hkey hnonce, List.map_const', List.sum_replicate_nat, List.length_range]
  omega

theorem length_shortNonce (hnonce : nonce.length = 24) : (shortNonce nonce).length = 12 := by
  rw [shortNonce, List.length_append, List.length_replicate, List.length_drop, hnonce]

/-- The stream covers what is asked of it. -/
theorem le_length_stream (hkey : key.length = 32) (hnonce : nonce.length = 24) (len : ℕ) :
    len ≤ (ChaCha.stream key nonce len).length :=
  le_length_keystream (length_subkey hkey (by rw [List.length_take, hnonce]; rfl)) (length_shortNonce hnonce) len

@[simp] theorem length_tag (ct aad : List UInt8) : (tag key nonce ct aad).length = 16 := length_leBytes _ _

theorem length_mask (h : message.length ≤ stream.length) : (mask stream message).length = message.length := by
  rw [mask, List.length_zipWith, Nat.min_eq_left h]

/-- The same stream takes the mask off again. -/
theorem mask_mask (h : message.length ≤ stream.length) : mask stream (mask stream message) = message := by
  induction message generalizing stream with
  | nil => rfl
  | cons b message ih =>
    rcases stream with - | ⟨k, stream⟩
    · exact absurd h (by simp)
    · have hrest := ih (Nat.le_of_succ_le_succ h)
      rw [mask, mask, List.zipWith_cons_cons, List.zipWith_cons_cons, UInt8.xor_assoc, UInt8.xor_self,
        UInt8.xor_zero]
      exact congrArg (b :: ·) hrest

theorem length_apply (hkey : key.length = 32) (hnonce : nonce.length = 24) (message : List UInt8) :
    (apply key nonce message).length = message.length :=
  length_mask (le_length_stream hkey hnonce message.length)

end Lengths

/-- **Decryption inverts encryption.** -/
theorem apply_apply {key nonce : List UInt8} (hkey : key.length = 32) (hnonce : nonce.length = 24)
    (message : List UInt8) : apply key nonce (apply key nonce message) = message := by
  rw [apply, length_apply hkey hnonce, apply, mask_mask (le_length_stream hkey hnonce message.length)]

/-- The published test vector of the cipher: every byte of the ciphertext has a part in its tag. -/
example :
    let key := (List.range 32).map fun i ↦ UInt8.ofNat (0x80 + i)
    let nonce := (List.range 24).map fun i ↦ UInt8.ofNat (0x40 + i)
    let message := utf8 "Ladies and Gentlemen of the class of '99: " ++
      utf8 "If I could offer you only one tip for the future, sunscreen would be it."
    tag key nonce (apply key nonce message)
        [0x50, 0x51, 0x52, 0x53, 0xc0, 0xc1, 0xc2, 0xc3, 0xc4, 0xc5, 0xc6, 0xc7] =
      [0xc0, 0x87, 0x59, 0x24, 0xc1, 0xc7, 0x98, 0x79, 0x47, 0xde, 0xaf, 0xd8, 0x78, 0x0a, 0xcf, 0x49] := by
  decide +kernel

end OpenCrate.ChaCha
