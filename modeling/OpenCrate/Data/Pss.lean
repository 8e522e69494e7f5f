import OpenCrate.Data.Bytes
import Mathlib.Algebra.Order.Floor.Div
import Mathlib.Data.List.TakeDrop

/-!
# The probabilistic signature scheme

The encoding of RFC 8017, over an arbitrary hash of `hLen` bytes: numbers as octet strings (`os2ip`,
`i2osp`), the mask generation function (`mgf1`), and the operation that decides whether an encoded message
fits a message (`EmsaPssVerify`), step by step.

The scheme leaves the hash open, and an encoded message that passes the two checks made before any hashing
fits some message under some hash (`exists_emsaPssVerify`): nothing else about its bytes is fixed.
-/

namespace Pss

/-! ### Octet strings -/

/-- The number of an octet string, most significant first. -/
def os2ip (bytes : List UInt8) : ℕ := leNat bytes.reverse

/-- The octet string of a number, most significant first. -/
def i2osp (n len : ℕ) : List UInt8 := (leBytes len n).reverse

@[simp] theorem length_i2osp (n len : ℕ) : (i2osp n len).length = len := by
  rw [i2osp, List.length_reverse, length_leBytes]

theorem os2ip_i2osp {n len : ℕ} (h : n < 256 ^ len) : os2ip (i2osp n len) = n := by
  rw [os2ip, i2osp, List.reverse_reverse, leNat_leBytes h]

theorem i2osp_os2ip (bytes : List UInt8) : i2osp (os2ip bytes) bytes.length = bytes := by
  rw [i2osp, os2ip, ← List.length_reverse, leBytes_leNat, List.reverse_reverse]

theorem os2ip_lt (bytes : List UInt8) : os2ip bytes < 256 ^ bytes.length := by
  rw [← List.length_reverse]
  exact leNat_lt _

theorem os2ip_inj {a b : List UInt8} (hlen : a.length = b.length) (h : os2ip a = os2ip b) : a = b := by
  rw [← i2osp_os2ip a, ← i2osp_os2ip b, hlen, h]

theorem getLast?_i2osp (n len : ℕ) : (i2osp n (len + 1)).getLast? = some (UInt8.ofNat n) := by
  rw [i2osp, List.getLast?_reverse]
  rfl

theorem leBytes_succ_eq_append (len n : ℕ) :
    leBytes (len + 1) n = leBytes len n ++ [UInt8.ofNat (n / 256 ^ len)] := by
  induction len generalizing n with
  | zero => simp [leBytes]
  | succ len ih =>
    rw [leBytes, ih, leBytes, List.cons_append, Nat.div_div_eq_div_mul, Nat.pow_succ', Nat.mul_comm]

/-- The first byte is the highest digit. -/
theorem head?_i2osp (n len : ℕ) : (i2osp n (len + 1)).head? = some (UInt8.ofNat (n / 256 ^ len)) := by
  rw [i2osp, List.head?_reverse, leBytes_succ_eq_append, List.getLast?_concat]

/-! ### The mask -/

variable {hLen : ℕ} (hash : List UInt8 → List.Vector UInt8 hLen)

/-- The mask generation function: the hashes of the seed with a counter of four octets, cut to a length. -/
def mgf1 (seed : List UInt8) (maskLen : ℕ) : List UInt8 :=
  ((List.range (maskLen ⌈/⌉ hLen)).flatMap fun counter ↦
    (hash (seed ++ i2osp counter 4)).toList).take maskLen

theorem le_ceilDiv_mul {n : ℕ} (hpos : 0 < n) (len : ℕ) : len ≤ len ⌈/⌉ n * n := by
  rw [Nat.mul_comm]
  exact le_smul_ceilDiv hpos

theorem length_mgf1 (hpos : 0 < hLen) (seed : List UInt8) (maskLen : ℕ) :
    (mgf1 hash seed maskLen).length = maskLen := by
  rw [mgf1, List.length_take, List.length_flatMap]
  simp only [List.Vector.toList_length, List.map_const', List.length_range, List.sum_replicate,
    smul_eq_mul]
  exact Nat.min_eq_left (le_ceilDiv_mul hpos maskLen)

/-- An octet string with its leftmost `bits` bits, all in the first octet, set to zero. -/
def clearLeft (bits : ℕ) : List UInt8 → List UInt8
  | [] => []
  | first :: rest => UInt8.ofNat (first.toNat % 2 ^ (8 - bits)) :: rest

@[simp] theorem length_clearLeft (bits : ℕ) (l : List UInt8) : (clearLeft bits l).length = l.length := by
  cases l <;> rfl

/-! ### The encoding operation -/

variable (emBits : ℕ)

/-- Length of an encoded message of `emBits` bits. -/
def emLen : ℕ := emBits ⌈/⌉ 8

/-- How many bits of the first octet an encoded message leaves unused. -/
def unusedBits : ℕ := 8 * emLen emBits - emBits

/-- Length of the masked data block. -/
def dbLen (hLen emBits : ℕ) : ℕ := emLen emBits - hLen - 1

/-- The masked data block of an encoded message. -/
def maskedDb (hLen emBits : ℕ) (em : List UInt8) : List UInt8 := em.take (dbLen hLen emBits)

/-- The hash in an encoded message. -/
def hashOf (hLen emBits : ℕ) (em : List UInt8) : List UInt8 := (em.drop (dbLen hLen emBits)).take hLen

/-- The data block of an encoded message: padding, a separator, and the salt. -/
def dataBlock (em : List UInt8) : List UInt8 :=
  clearLeft (unusedBits emBits) (List.zipWith (· ^^^ ·) (maskedDb hLen emBits em)
    (mgf1 hash (hashOf hLen emBits em) (dbLen hLen emBits)))

/-- The data block has the length of its mask. -/
theorem length_dataBlock (hpos : 0 < hLen) {em : List UInt8} (h : dbLen hLen emBits ≤ em.length) :
    (dataBlock hash emBits em).length = dbLen hLen emBits := by
  rw [dataBlock, length_clearLeft, List.length_zipWith, maskedDb, List.length_take,
    length_mgf1 hash hpos, Nat.min_eq_left h, Nat.min_self]

/-- What the hash of an encoded message is taken of. -/
def saltedMessage (message salt : List UInt8) : List UInt8 :=
  List.replicate 8 0 ++ (hash message).toList ++ salt

/-- An encoded message of `emBits` bits is consistent with a message, for a salt of `sLen` octets. -/
structure EmsaPssVerify (sLen : ℕ) (message em : List UInt8) : Prop where
  room : hLen + sLen + 2 ≤ emLen emBits
  trailer : em.getLast? = some 0xbc
  unused : ∀ first ∈ (maskedDb hLen emBits em).head?, first.toNat < 2 ^ (8 - unusedBits emBits)
  padding : (dataBlock hash emBits em).take (emLen emBits - hLen - sLen - 2) =
    List.replicate (emLen emBits - hLen - sLen - 2) 0
  separator : (dataBlock hash emBits em)[emLen emBits - hLen - sLen - 2]? = some 0x01
  hashed : (hash (saltedMessage hash message
    ((dataBlock hash emBits em).drop (dbLen hLen emBits - sLen)))).toList = hashOf hLen emBits em

/-! ### An encoded message and its hash -/

section Masking

/-- A list of whole blocks is their concatenation. -/
theorem flatMap_blocks {α : Type*} {k n : ℕ} {l : List α} (h : l.length = k * n) :
    ((List.range k).flatMap fun i ↦ (l.drop (i * n)).take n) = l := by
  induction k generalizing l with
  | zero =>
    rw [Nat.zero_mul] at h
    exact (List.length_eq_zero_iff.mp h).symm
  | succ k ih =>
    have hrest : (l.drop n).length = k * n := by
      rw [List.length_drop, h, Nat.succ_mul, Nat.add_sub_cancel]
    have hblock (i : ℕ) : (l.drop ((i + 1) * n)).take n = ((l.drop n).drop (i * n)).take n := by
      rw [List.drop_drop, Nat.succ_mul, Nat.add_comm]
    simp only [List.range_succ_eq_map, List.flatMap_cons, List.flatMap_map, hblock, ih hrest]
    rw [Nat.zero_mul, List.drop_zero, List.take_append_drop]

theorem zipWith_xor_cancel {a b : List UInt8} (h : a.length = b.length) :
    List.zipWith (· ^^^ ·) a (List.zipWith (· ^^^ ·) a b) = b := by
  induction a generalizing b with
  | nil => exact (List.length_eq_zero_iff.mp h.symm).symm
  | cons x a ih =>
    cases b with
    | nil => simp at h
    | cons y b =>
      rw [List.zipWith_cons_cons, List.zipWith_cons_cons, ih (Nat.succ.inj h), ← UInt8.xor_assoc,
        UInt8.xor_self, UInt8.zero_xor]

/-- The block of `hLen` octets at an index, completed by zeros. -/
def blockAt (hLen : ℕ) (blocks : List UInt8) (i : ℕ) : List.Vector UInt8 hLen :=
  ⟨(blocks.drop (i * hLen)).takeD hLen 0, List.takeD_length _ _ _⟩

/-- A hash that answers a seed with a counter by a block of `blocks`, and all else by `h`. -/
def maskingHash (h : List.Vector UInt8 hLen) (blocks x : List UInt8) : List.Vector UInt8 hLen :=
  if x.length = hLen + 4 then blockAt hLen blocks (os2ip (x.drop hLen)) else h

variable (h : List.Vector UInt8 hLen) {blocks seed : List UInt8} {len : ℕ}

/-- The mask of any seed is what the blocks say. -/
theorem mgf1_maskingHash (hblocks : blocks.length = len ⌈/⌉ hLen * hLen)
    (hcount : len ⌈/⌉ hLen ≤ 256 ^ 4) (hseed : seed.length = hLen) :
    mgf1 (maskingHash h blocks) seed len = blocks.take len := by
  have hblock : ∀ i ∈ List.range (len ⌈/⌉ hLen),
      (maskingHash h blocks (seed ++ i2osp i 4)).toList = (blocks.drop (i * hLen)).take hLen := by
    intro i hi
    have hlt := List.mem_range.mp hi
    have hlen : (seed ++ i2osp i 4).length = hLen + 4 := by
      rw [List.length_append, hseed, length_i2osp]
    rw [maskingHash, if_pos hlen, List.drop_left' hseed, os2ip_i2osp (hlt.trans_le hcount)]
    refine List.takeD_eq_take _ ?_
    rw [List.length_drop, hblocks, ← Nat.sub_mul]
    exact Nat.le_mul_of_pos_left _ (Nat.sub_pos_of_lt hlt)
  rw [mgf1, List.flatMap_congr hblock, flatMap_blocks hblocks]

/-- The salted message hashes to the same block. -/
theorem maskingHash_saltedMessage (hash : List UInt8 → List.Vector UInt8 hLen)
    (message salt : List UInt8) : maskingHash h blocks (saltedMessage hash message salt) = h := by
  refine if_neg ?_
  rw [saltedMessage, List.length_append, List.length_append, List.length_replicate,
    List.Vector.toList_length]
  omega

/-- Some hash gives a mask, whatever the seed, and has a given value at every salted message. -/
theorem exists_mgf1_eq (hpos : 0 < hLen) {mask : List UInt8} (hcount : mask.length ⌈/⌉ hLen ≤ 256 ^ 4) :
    ∃ hash : List UInt8 → List.Vector UInt8 hLen,
      (∀ seed, seed.length = hLen → mgf1 hash seed mask.length = mask) ∧
        ∀ (hash' : List UInt8 → List.Vector UInt8 hLen) message salt,
          hash (saltedMessage hash' message salt) = h := by
  obtain ⟨fill, hblocks⟩ : ∃ fill : List UInt8,
      (mask ++ fill).length = mask.length ⌈/⌉ hLen * hLen := by
    refine ⟨List.replicate (mask.length ⌈/⌉ hLen * hLen - mask.length) 0, ?_⟩
    rw [List.length_append, List.length_replicate]
    exact Nat.add_sub_cancel' (le_ceilDiv_mul hpos mask.length)
  refine ⟨maskingHash h (mask ++ fill), fun seed hseed ↦ ?_, fun hash' message salt ↦
    maskingHash_saltedMessage h hash' message salt⟩
  rw [mgf1_maskingHash h hblocks hcount hseed]
  exact List.take_left' rfl

end Masking

/-- A data block keeps its first octet. -/
theorem clearLeft_padding {bits : ℕ} (h : bits < 8) (count : ℕ) (salt : List UInt8) :
    clearLeft bits (List.replicate count 0 ++ 0x01 :: salt) =
      List.replicate count 0 ++ 0x01 :: salt := by
  have hpow : 1 < 2 ^ (8 - bits) := Nat.one_lt_two_pow (by omega)
  cases count with
  | zero =>
    show UInt8.ofNat (1 % 2 ^ (8 - bits)) :: salt = 0x01 :: salt
    rw [Nat.mod_eq_of_lt hpow]
    rfl
  | succ count =>
    show UInt8.ofNat (0 % 2 ^ (8 - bits)) :: (List.replicate count 0 ++ 0x01 :: salt) = _
    rw [Nat.zero_mod]
    rfl

theorem unusedBits_lt : unusedBits emBits < 8 := by
  rw [unusedBits, emLen, Nat.ceilDiv_eq_add_pred_div]
  omega

/-- The data block of an encoding whose salt is all zeros. -/
def zeroSaltBlock (hLen emBits sLen : ℕ) : List UInt8 :=
  List.replicate (emLen emBits - hLen - sLen - 2) 0 ++ 0x01 :: List.replicate sLen 0

variable {emBits} {sLen : ℕ}

theorem length_zeroSaltBlock (hroom : hLen + sLen + 2 ≤ emLen emBits) :
    (zeroSaltBlock hLen emBits sLen).length = dbLen hLen emBits := by
  rw [zeroSaltBlock, dbLen, List.length_append, List.length_cons, List.length_replicate,
    List.length_replicate]
  omega

/-- An encoded message that passes what is checked before any hashing fits the empty message under some
hash. -/
theorem exists_emsaPssVerify {em : List UInt8} (hpos : 0 < hLen)
    (hroom : hLen + sLen + 2 ≤ emLen emBits) (hcount : dbLen hLen emBits ⌈/⌉ hLen ≤ 256 ^ 4)
    (hlen : em.length = emLen emBits) (htrailer : em.getLast? = some 0xbc)
    (hunused : ∀ first ∈ (maskedDb hLen emBits em).head?, first.toNat < 2 ^ (8 - unusedBits emBits)) :
    ∃ hash : List UInt8 → List.Vector UInt8 hLen, EmsaPssVerify hash emBits sLen [] em := by
  have hdb : dbLen hLen emBits = emLen emBits - hLen - 1 := rfl
  have hmasked : (maskedDb hLen emBits em).length = dbLen hLen emBits := by
    rw [maskedDb, List.length_take, hlen]
    omega
  have hhash : (hashOf hLen emBits em).length = hLen := by
    rw [hashOf, List.length_take, List.length_drop, hlen]
    omega
  have hsame := hmasked.trans (length_zeroSaltBlock hroom).symm
  -- the mask that turns the data block with a salt of zeros into that of `em`
  have hmask : (List.zipWith (· ^^^ ·) (maskedDb hLen emBits em)
      (zeroSaltBlock hLen emBits sLen)).length = dbLen hLen emBits := by
    rw [List.length_zipWith, ← hsame, hmasked, Nat.min_self]
  obtain ⟨hash, hmgf, hsalted⟩ := exists_mgf1_eq ⟨hashOf hLen emBits em, hhash⟩ hpos
    (hmask.symm ▸ hcount)
  have hdata : dataBlock hash emBits em = zeroSaltBlock hLen emBits sLen := by
    rw [dataBlock, ← hmask, hmgf _ hhash, zipWith_xor_cancel hsame]
    exact clearLeft_padding (unusedBits_lt emBits) _ _
  refine ⟨hash, hroom, htrailer, hunused, ?_, ?_, ?_⟩
  · rw [hdata, zeroSaltBlock]
    exact List.take_left' List.length_replicate
  · rw [hdata, zeroSaltBlock, List.getElem?_append_right (by rw [List.length_replicate]),
      List.length_replicate, Nat.sub_self]
    rfl
  · exact congrArg List.Vector.toList (hsalted _ _ _)

end Pss
