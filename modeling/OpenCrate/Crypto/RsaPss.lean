import OpenCrate.Crypto.Rsa
import OpenCrate.Data.Pss
import Mathlib.Data.Int.ModEq
import Mathlib.Data.Nat.Bitwise
import Mathlib.Data.Nat.Size

/-!
# Which signatures RSA-PSS verification accepts

`verifyPssSha256` against the operation of the standard (`Pss.EmsaPssVerify`). The parsing of the padding is
the one of an encoding of 2047 bits (`verifyPssSha256_eq_ok_iff`), which is right for a modulus of exactly
2048 bits. The bits of the modulus are never counted: leading zeros are read as part of the number, and a
shorter odd modulus is used as it is (`exact_iff`).
-/

namespace OpenCrate.Crypto.Rsa

/-- The bits of an encoded message: one less than those of the modulus. -/
def emBits : ℕ := 2047

variable {sha : Sha2}

/-! ### The parts of an encoded message -/

theorem dbLen_emBits : Pss.dbLen hLen emBits = dbLen := rfl

theorem unusedBits_emBits : Pss.unusedBits emBits = 1 := rfl

/-- The mask is the one of the standard, as long as the counter does not wrap. -/
theorem mgf1_eq_mgf1 (seed : List UInt8) {len : ℕ} (h : len ≤ 2 ^ 32 * hLen) :
    mgf1 sha seed len = Pss.mgf1 sha.sha256 seed len := by
  have hcount : len ⌈/⌉ 32 = (len + hLen - 1) / hLen := Nat.ceilDiv_eq_add_pred_div _ _
  rw [mgf1, Pss.mgf1, hcount]
  refine congrArg (List.take len) (List.flatMap_congr fun counter hcounter ↦ ?_)
  have hlt : counter < 2 ^ 32 := by
    have := List.mem_range.mp hcounter
    rw [hLen] at this h
    omega
  have hbytes : toBeBytes (UInt32.ofNat counter) = Pss.i2osp counter 4 := by
    rw [toBeBytes, toLeBytes, Pss.i2osp]
    show (leBytes 4 (UInt32.ofNat counter).toNat).reverse = _
    rw [UInt32.toNat_ofNat', Nat.mod_eq_of_lt hlt]
  rw [hbytes]

theorem and_0x7f (b : UInt8) : b &&& 0x7f = UInt8.ofNat (b.toNat % 2 ^ 7) := by
  refine UInt8.toNat_inj.mp ?_
  rw [UInt8.toNat_and, UInt8.toNat_ofNat']
  show b.toNat &&& (2 ^ 7 - 1) = _
  rw [Nat.and_two_pow_sub_one_eq_mod]
  omega

theorem and_0x80_eq_zero_iff (b : UInt8) : b &&& 0x80 = 0 ↔ b.toNat < 2 ^ 7 := by
  have hb : b.toNat < 2 ^ 8 := b.toNat_lt
  rw [← UInt8.toNat_inj, UInt8.toNat_and]
  show b.toNat &&& 2 ^ 7 = 0 ↔ _
  rw [Nat.and_two_pow, Nat.testBit_eq_decide_div_mod_eq]
  by_cases h : b.toNat / 2 ^ 7 % 2 = 1
  · simp only [h, decide_true, Bool.toNat_true]
    omega
  · simp only [h, decide_false, Bool.toNat_false]
    omega

/-- The verifier unmasks the data block as the standard does. -/
theorem unmask_eq_clearLeft (h maskedDb : List UInt8) :
    unmask sha h maskedDb =
      Pss.clearLeft 1 (List.zipWith (· ^^^ ·) maskedDb (Pss.mgf1 sha.sha256 h dbLen)) := by
  rw [unmask, mgf1_eq_mgf1 h (by decide), List.zipWith_comm]
  simp only [UInt8.xor_comm]
  cases List.zipWith (fun x y : UInt8 ↦ x ^^^ y) maskedDb (Pss.mgf1 sha.sha256 h dbLen) with
  | nil => rfl
  | cons first rest => exact congrArg (· :: rest) (and_0x7f first)

theorem length_encodeBlock (n : ℕ) : (encodeBlock n).length = modulusLen := Pss.length_i2osp _ _

theorem dataBlock_eq_unmask {em h : List UInt8} (hh : (em.drop dbLen).take hLen = h) :
    Pss.dataBlock sha.sha256 emBits em = unmask sha h (em.take dbLen) := by
  rw [unmask_eq_clearLeft, ← hh]
  rfl

theorem any_ne_zero_eq_false_iff {l : List UInt8} :
    l.any (· ≠ 0) = false ↔ l = List.replicate l.length 0 := by
  rw [List.any_eq_false, List.eq_replicate_iff]
  simp

/-- The checks that the verifier makes of an encoded message. -/
theorem emsaPssVerify_iff {message em : List UInt8} (hem : em.length = modulusLen) :
    Pss.EmsaPssVerify sha.sha256 emBits sLen message em ↔
      em.getLast? = some 0xbc ∧ ∃ h : List.Vector UInt8 hLen, (em.drop dbLen).take hLen = h.toList ∧
        ∃ first, (em.take dbLen).head? = some first ∧ first &&& 0x80 = 0 ∧
          ((unmask sha h.toList (em.take dbLen)).take psLen).any (· ≠ 0) = false ∧
          ∃ separator, ((unmask sha h.toList (em.take dbLen)).drop psLen).head? = some separator ∧
            (separator = 0x01 ∧ ((unmask sha h.toList (em.take dbLen)).drop psLen).tail.length = sLen) ∧
            digestEq (sha.sha256 (List.replicate 8 0 ++ (sha.sha256 message).toList ++
              ((unmask sha h.toList (em.take dbLen)).drop psLen).tail)) h = true := by
  have hlen : (Pss.dataBlock sha.sha256 emBits em).length = dbLen := by
    refine Pss.length_dataBlock sha.sha256 emBits (by decide) ?_
    rw [hem]
    decide
  have hsalt : ((Pss.dataBlock sha.sha256 emBits em).drop psLen).tail =
      (Pss.dataBlock sha.sha256 emBits em).drop (Pss.dbLen hLen emBits - sLen) := by
    rw [List.tail_drop]
    rfl
  constructor
  · intro hverify
    obtain ⟨h, hh⟩ : ∃ h : List.Vector UInt8 hLen, (em.drop dbLen).take hLen = h.toList :=
      ⟨⟨_, by rw [List.length_take, List.length_drop, hem]; rfl⟩, rfl⟩
    obtain ⟨first, hfirst⟩ : ∃ first, (em.take dbLen).head? = some first := by
      have hne : em.take dbLen ≠ [] := by
        rw [← List.length_pos_iff, List.length_take, hem]
        decide
      exact ⟨_, List.head?_eq_some_head hne⟩
    refine ⟨hverify.trailer, h, hh, first, hfirst, ?_⟩
    rw [← dataBlock_eq_unmask hh, hsalt]
    refine ⟨(and_0x80_eq_zero_iff first).mpr (hverify.unused first hfirst), ?_, 0x01, ?_, ⟨rfl, ?_⟩, ?_⟩
    · rw [any_ne_zero_eq_false_iff, List.length_take, hlen]
      exact hverify.padding
    · rw [List.head?_drop]
      exact hverify.separator
    · rw [List.length_drop, hlen]
      rfl
    · exact digestEq_eq_true_iff.mpr (List.Vector.toList_injective (hverify.hashed.trans hh))
  · intro h
    obtain ⟨htrailer, h, hh, first, hfirst, hunused, hpadding, _, hseparator, ⟨rfl, -⟩, hequal⟩ := h
    rw [← dataBlock_eq_unmask hh] at hpadding hseparator hequal
    rw [any_ne_zero_eq_false_iff, List.length_take, hlen] at hpadding
    rw [List.head?_drop] at hseparator
    rw [hsalt] at hequal
    refine ⟨by decide, htrailer, fun b hb ↦ ?_, hpadding, hseparator, ?_⟩
    · obtain rfl : first = b := Option.some_inj.mp (hfirst.symm.trans hb)
      exact (and_0x80_eq_zero_iff first).mp hunused
    · exact (congrArg List.Vector.toList (digestEq_eq_true_iff.mp hequal)).trans hh.symm

/-- The checks of the verifier. -/
theorem verifyPssSha256_eq_ok_iff {modulus : List.Vector UInt8 modulusLen}
    {message signature : List UInt8} :
    verifyPssSha256 sha modulus message signature = .ok () ↔
      signature.length = modulusLen ∧
        fromBeSlice signature < fromBeSlice modulus.toList ∧
        fromBeSlice modulus.toList % 2 = 1 ∧
        Pss.EmsaPssVerify sha.sha256 emBits sLen message
          (encodeBlock (fromBeSlice signature ^ exponent % fromBeSlice modulus.toList)) := by
  rw [emsaPssVerify_iff (length_encodeBlock _)]
  simp only [verifyPssSha256, Except.bind_eq_ok_iff,
    Except.refuseIf_eq_ok_iff, Except.okOr_eq_ok_iff, toVector?_eq_some_iff, not_not, not_le, not_or,
    Nat.mod_two_ne_zero, Bool.not_eq_true, Bool.not_eq_false, exists_const]

/-! ### The standard -/

variable {modulus : List.Vector UInt8 modulusLen}

/-- The standard accepts a signature: for a modulus of exactly 2048 bits, the exponent of the format, and a
salt of 32 bytes. -/
structure StandardAccepts (sha : Sha2) (modulus : List.Vector UInt8 modulusLen)
    (message signature : List UInt8) : Prop where
  length : signature.length = 256
  odd : Odd (Pss.os2ip modulus.toList)
  bits : (Pss.os2ip modulus.toList).size = 2048
  lt : Pss.os2ip signature < Pss.os2ip modulus.toList
  encoding : Pss.EmsaPssVerify sha.sha256 2047 32 message
    (Pss.i2osp (Pss.os2ip signature ^ exponent % Pss.os2ip modulus.toList) 256)

/-- Verification under a modulus is that of the standard: it accepts the same signatures, it accepts at most
one spelling of each, and it accepts none if the modulus has another number of bits. -/
structure Exact (modulus : List.Vector UInt8 modulusLen) : Prop where
  accepts_iff : ∀ sha message signature, verifyPssSha256 sha modulus message signature = .ok () ↔
    StandardAccepts sha modulus message signature
  unique : ∀ sha message a b, verifyPssSha256 sha modulus message a = .ok () →
    verifyPssSha256 sha modulus message b = .ok () →
    Pss.os2ip a ≡ Pss.os2ip b [MOD Pss.os2ip modulus.toList] → a = b
  refuses : (Pss.os2ip modulus.toList).size ≠ 2048 → ∀ sha message signature,
    verifyPssSha256 sha modulus message signature ≠ .ok ()

/-- The standard also insists on the length of the modulus. -/
theorem standardAccepts_iff {message signature : List UInt8} :
    StandardAccepts sha modulus message signature ↔
      (Pss.os2ip modulus.toList).size = 2048 ∧
        verifyPssSha256 sha modulus message signature = .ok () := by
  rw [verifyPssSha256_eq_ok_iff]
  constructor
  · intro h
    exact ⟨h.bits, h.length, h.lt, Nat.odd_iff.mp h.odd, h.encoding⟩
  · intro h
    obtain ⟨hbits, hlength, hlt, hodd, hencoding⟩ := h
    exact ⟨hlength, Nat.odd_iff.mpr hodd, hbits, hlt, hencoding⟩

/-- Two accepted signatures are equal if their numbers are the same modulo the modulus. -/
theorem eq_of_modEq {message a b : List UInt8} (ha : verifyPssSha256 sha modulus message a = .ok ())
    (hb : verifyPssSha256 sha modulus message b = .ok ())
    (h : Pss.os2ip a ≡ Pss.os2ip b [MOD Pss.os2ip modulus.toList]) : a = b := by
  obtain ⟨hlena, hlta, -⟩ := verifyPssSha256_eq_ok_iff.mp ha
  obtain ⟨hlenb, hltb, -⟩ := verifyPssSha256_eq_ok_iff.mp hb
  exact Pss.os2ip_inj (hlena.trans hlenb.symm) (h.eq_of_lt_of_lt hlta hltb)

/-! ### Shorter moduli -/

theorem two_pow_emBits : 2 ^ emBits = 256 ^ 255 * 2 ^ 7 := by
  have hsplit : emBits = 8 * 255 + 7 := rfl
  have hbyte : 2 ^ 8 = 256 := rfl
  rw [hsplit, pow_add, pow_mul, hbyte]

theorem size_le_iff (modulus : List.Vector UInt8 modulusLen) :
    (Pss.os2ip modulus.toList).size = 2048 ∨ Pss.os2ip modulus.toList < 2 ^ emBits := by
  have hlt := Pss.os2ip_lt modulus.toList
  rw [List.Vector.toList_length] at hlt
  have hmax : 256 ^ modulusLen = 2 ^ (emBits + 1) := by
    show 256 ^ (255 + 1) = _
    rw [pow_succ 256 255, pow_succ 2 emBits, two_pow_emBits, Nat.mul_assoc]
    exact congrArg (256 ^ 255 * ·) rfl
  rw [hmax] at hlt
  have hsize := Nat.size_le.mpr hlt
  by_cases h : (Pss.os2ip modulus.toList).size ≤ emBits
  · exact .inr (Nat.size_le.mp h)
  · refine .inl ?_
    rw [emBits] at h hsize
    omega

/-- The unused bit of a number below its place is clear. -/
theorem head?_encodeBlock_lt {n : ℕ} (h : n < 2 ^ emBits) :
    ∀ first ∈ (Pss.maskedDb hLen emBits (encodeBlock n)).head?,
      first.toNat < 2 ^ (8 - Pss.unusedBits emBits) := by
  have hhead : (Pss.maskedDb hLen emBits (encodeBlock n)).head? = some (UInt8.ofNat (n / 256 ^ 255)) := by
    rw [Pss.maskedDb, dbLen_emBits, List.head?_take, if_neg (by decide)]
    exact Pss.head?_i2osp n 255
  intro first hfirst
  obtain rfl := Option.some_inj.mp (hhead.symm.trans hfirst)
  have hlt : n / 256 ^ 255 < 2 ^ 7 := Nat.div_lt_of_lt_mul (two_pow_emBits ▸ h)
  rw [UInt8.toNat_ofNat', unusedBits_emBits]
  exact (Nat.mod_le _ _).trans_lt hlt

theorem getLast?_encodeBlock_iff (n : ℕ) :
    (encodeBlock n).getLast? = some 0xbc ↔ n % 256 = 0xbc := by
  have hlast : (encodeBlock n).getLast? = some (UInt8.ofNat n) := Pss.getLast?_i2osp n 255
  rw [hlast, Option.some_inj, ← UInt8.toNat_inj, UInt8.toNat_ofNat']
  rfl

/-- Under an odd modulus of fewer bits, a signature is accepted by verification over some hash exactly if its
power ends as an encoded message does. -/
theorem exists_accepted_iff (hbits : Pss.os2ip modulus.toList < 2 ^ emBits) :
    (∃ sha message signature, verifyPssSha256 sha modulus message signature = .ok ()) ↔
      Odd (Pss.os2ip modulus.toList) ∧ ∃ s < Pss.os2ip modulus.toList,
        s ^ exponent % Pss.os2ip modulus.toList % 256 = 0xbc := by
  constructor
  · intro h
    obtain ⟨sha, message, signature, hverify⟩ := h
    obtain ⟨-, hlt, hodd, hencoding⟩ := verifyPssSha256_eq_ok_iff.mp hverify
    exact ⟨Nat.odd_iff.mpr hodd, _, hlt, (getLast?_encodeBlock_iff _).mp hencoding.trailer⟩
  · intro h
    obtain ⟨hodd, s, hlt, htrailer⟩ := h
    have hem : s ^ exponent % Pss.os2ip modulus.toList < 2 ^ emBits :=
      (Nat.mod_lt _ (Nat.zero_lt_of_lt hlt)).trans hbits
    have hroom : hLen + sLen + 2 ≤ Pss.emLen emBits := by decide
    obtain ⟨hash, hverify⟩ := Pss.exists_emsaPssVerify (by decide) hroom (by decide)
      (length_encodeBlock _) ((getLast?_encodeBlock_iff _).mpr htrailer) (head?_encodeBlock_lt hem)
    have hmodulus := Pss.os2ip_lt modulus.toList
    rw [List.Vector.toList_length] at hmodulus
    have hs : fromBeSlice (encodeBlock s) = s := Pss.os2ip_i2osp (hlt.trans hmodulus)
    refine ⟨⟨hash, fun _ _ ↦ List.Vector.replicate 32 0, fun _ _ _ n ↦ List.Vector.replicate n 0⟩, [],
      encodeBlock s, verifyPssSha256_eq_ok_iff.mpr ⟨length_encodeBlock s, ?_, Nat.odd_iff.mp hodd, ?_⟩⟩
    · rw [hs]
      exact hlt
    · rw [hs]
      exact hverify

/-- **Verification is that of the standard** if and only if the modulus has exactly 2048 bits, or accepts
nothing: it is even, or no power below it ends as an encoded message does. -/
theorem exact_iff (modulus : List.Vector UInt8 modulusLen) :
    Exact modulus ↔ (Pss.os2ip modulus.toList).size = 2048 ∨ Even (Pss.os2ip modulus.toList) ∨
      ∀ s < Pss.os2ip modulus.toList, s ^ exponent % Pss.os2ip modulus.toList % 256 ≠ 0xbc := by
  by_cases hbits : (Pss.os2ip modulus.toList).size = 2048
  · refine iff_of_true ⟨fun _ _ _ ↦ ?_, fun _ _ _ _ ↦ eq_of_modEq, fun h ↦ absurd hbits h⟩ (.inl hbits)
    rw [standardAccepts_iff, and_iff_right hbits]
  · have hnone := not_congr (exists_accepted_iff ((size_le_iff modulus).resolve_left hbits))
    simp only [not_exists, not_and, ← Nat.not_even_iff_odd] at hnone
    rw [or_iff_right hbits, or_iff_not_imp_left, ← hnone]
    constructor
    · intro h
      exact h.refuses hbits
    · intro h
      refine ⟨fun sha message signature ↦ ?_, fun _ _ _ _ ↦ eq_of_modEq, fun _ ↦ h⟩
      rw [standardAccepts_iff]
      exact iff_of_false (h sha message signature) fun hstandard ↦ hbits hstandard.1

/-! ### Samples -/

/-- A product of two primes, of 2047 bits. -/
def shortModulusBytes : List UInt8 :=
  [0x67, 0x5b, 0x2b, 0x60, 0x23, 0x71, 0x83, 0x47, 0x59, 0xe5, 0x5f, 0x79, 0x6e, 0x68, 0x13, 0x1c,
   0x1d, 0xed, 0xa4, 0xe1, 0x9e, 0xf9, 0x9f, 0x3d, 0x97, 0xed, 0x86, 0xc3, 0xae, 0xbe, 0x4f, 0x30,
   0xe6, 0xad, 0x2d, 0x5a, 0xbc, 0x09, 0x7f, 0xe7, 0x54, 0xe7, 0x82, 0xee, 0x8b, 0xad, 0x77, 0xe2,
   0x5b, 0x61, 0x8c, 0x1c, 0x16, 0xe8, 0xc2, 0x9f, 0x3f, 0x16, 0x2c, 0x11, 0x7e, 0x4e, 0xf4, 0xe7,
   0x28, 0x16, 0xf8, 0xe3, 0x05, 0x9d, 0x52, 0x4c, 0x45, 0x6a, 0x3b, 0xd9, 0x7b, 0xeb, 0x37, 0x42,
   0xbb, 0xcb, 0x95, 0xd6, 0x37, 0x2f, 0x76, 0xff, 0x21, 0x77, 0x3e, 0x72, 0x56, 0x00, 0xba, 0x43,
   0x7c, 0xc6, 0x02, 0x08, 0x71, 0x69, 0x31, 0x86, 0x6d, 0xf4, 0xc7, 0xfe, 0x24, 0x29, 0x60, 0x08,
   0x4a, 0x57, 0x01, 0x43, 0xbf, 0x06, 0xdc, 0x99, 0xb7, 0x31, 0x76, 0xe5, 0xdb, 0xa1, 0x81, 0x3c,
   0xa3, 0x2c, 0xef, 0x58, 0x2b, 0x58, 0x40, 0x8f, 0x24, 0x63, 0xae, 0x92, 0xa3, 0xfe, 0xd1, 0xa5,
   0x56, 0x81, 0x43, 0x62, 0x15, 0x6a, 0x96, 0x7b, 0x26, 0x98, 0xba, 0xf0, 0xf5, 0x10, 0xee, 0x29,
   0x85, 0xac, 0x10, 0xf4, 0x9b, 0xfd, 0x24, 0x9f, 0xc9, 0xff, 0xad, 0xcf, 0xab, 0x3e, 0xa2, 0x51,
   0x4f, 0xbb, 0x07, 0x5c, 0x94, 0xf6, 0xaa, 0x77, 0xfb, 0xfe, 0x52, 0xd8, 0xb4, 0xfe, 0x48, 0x5b,
   0x39, 0xf3, 0x7b, 0xa7, 0x97, 0xd3, 0xb2, 0x06, 0x70, 0x53, 0xb5, 0x20, 0x96, 0x1b, 0x53, 0xe4,
   0xcf, 0x65, 0xa1, 0x9c, 0xdc, 0xab, 0x29, 0xe8, 0x7d, 0xbf, 0xc1, 0x27, 0x97, 0xfa, 0xdb, 0x84,
   0x2d, 0x26, 0x8d, 0x4a, 0xfe, 0x21, 0x84, 0x0d, 0xf6, 0x93, 0x49, 0x79, 0x44, 0x0a, 0x72, 0x1e,
   0xe0, 0xaa, 0x76, 0xf3, 0xdb, 0x7a, 0x8e, 0x07, 0xe5, 0x88, 0x3c, 0xed, 0x74, 0x78, 0x9b, 0x51]

/-- The modulus of these bytes. -/
def shortModulus : List.Vector UInt8 modulusLen := ⟨shortModulusBytes, by decide +kernel⟩

/-- A signature under it, of the message `edit`. -/
def shortSignature : List UInt8 :=
  [0x2d, 0xa4, 0x03, 0x49, 0xff, 0x70, 0xe2, 0x4d, 0x39, 0x52, 0x99, 0x8d, 0x8a, 0x7b, 0xca, 0xf2,
   0xba, 0x10, 0x05, 0x92, 0xf6, 0x65, 0x3a, 0x7f, 0x41, 0x87, 0x9f, 0xbf, 0x3b, 0x76, 0x99, 0x00,
   0xcf, 0x13, 0x5e, 0xc6, 0xe3, 0x36, 0xe8, 0x8c, 0x71, 0xc6, 0x6c, 0x39, 0xa4, 0x7d, 0x60, 0x92,
   0x8e, 0x21, 0xbc, 0x51, 0x37, 0x79, 0xad, 0x77, 0x2e, 0xe1, 0x5f, 0x29, 0x0f, 0x6f, 0x1d, 0x84,
   0xf6, 0xe5, 0x67, 0x32, 0x28, 0x6c, 0x3f, 0x06, 0x82, 0x19, 0x93, 0x22, 0xb1, 0xed, 0x97, 0x9b,
   0x47, 0xc8, 0xa7, 0x23, 0x26, 0x06, 0x5d, 0x8f, 0x57, 0xe7, 0xb4, 0xeb, 0xfb, 0xc5, 0x83, 0x19,
   0xf2, 0xeb, 0x6e, 0x1d, 0x28, 0x9d, 0xae, 0x00, 0xc8, 0xef, 0xda, 0x0c, 0xdb, 0xca, 0xee, 0x20,
   0x5f, 0x3f, 0xcc, 0xc9, 0xe2, 0xac, 0x9d, 0x51, 0x3b, 0x40, 0x96, 0xd2, 0x46, 0x32, 0x00, 0x5d,
   0x55, 0x69, 0xfa, 0x21, 0x02, 0xe5, 0x0b, 0x7c, 0x19, 0xb9, 0x11, 0x38, 0xa7, 0x0e, 0x47, 0x42,
   0x24, 0xa9, 0x14, 0x8d, 0x37, 0xd7, 0xe6, 0xda, 0x12, 0x98, 0x94, 0xf8, 0x5b, 0x04, 0xe9, 0xc3,
   0x3f, 0x99, 0x96, 0x9f, 0x74, 0x3a, 0xa2, 0x30, 0x11, 0x0d, 0xb4, 0x8b, 0x9b, 0xcd, 0x33, 0x3a,
   0x69, 0xfd, 0x91, 0x93, 0x27, 0x12, 0xf1, 0x06, 0xf1, 0x41, 0x6f, 0x83, 0x17, 0x22, 0xb2, 0x0a,
   0x91, 0x04, 0xe2, 0x6a, 0xca, 0x12, 0x46, 0x80, 0xea, 0x4c, 0x72, 0xc4, 0xb6, 0x2d, 0xd1, 0x00,
   0x96, 0xf9, 0x99, 0x44, 0xfd, 0x7b, 0xa0, 0x9c, 0x9a, 0xfa, 0xbd, 0xb0, 0x41, 0x87, 0x54, 0x64,
   0x21, 0x4b, 0x9e, 0x11, 0x7e, 0x20, 0x35, 0x2a, 0x06, 0x52, 0x1e, 0x5f, 0x18, 0x92, 0xb8, 0xd6,
   0xb0, 0x68, 0x80, 0x19, 0xbf, 0x41, 0xa9, 0x7f, 0x7e, 0xb9, 0x6f, 0xca, 0x7e, 0x3b, 0x9a, 0x4d]

/-- The power of the signature: an encoding of 2047 bits. -/
def shortEncoded : List UInt8 :=
  [0x43, 0x98, 0x19, 0x33, 0x74, 0x84, 0x2b, 0x1c, 0x31, 0xc6, 0x7c, 0xa8, 0x35, 0xc5, 0xed, 0xc1,
   0x33, 0x71, 0x8f, 0xad, 0xd3, 0x39, 0x31, 0x96, 0x1c, 0xf7, 0xb3, 0x0c, 0x10, 0xfb, 0x32, 0x1d,
   0xbf, 0x59, 0x14, 0xff, 0x69, 0x9d, 0xe5, 0xae, 0x0d, 0x3b, 0x4c, 0xb9, 0x6d, 0xfc, 0x89, 0x5e,
   0xfa, 0x8d, 0x85, 0x8b, 0x9f, 0xc2, 0xe5, 0x24, 0x21, 0x66, 0x3d, 0x42, 0x5b, 0x36, 0x34, 0x51,
   0x33, 0x90, 0x81, 0x94, 0x6d, 0x50, 0x99, 0x70, 0xe0, 0xeb, 0x29, 0x97, 0xfc, 0xfd, 0x94, 0x4d,
   0xbf, 0x2a, 0x3f, 0x07, 0x4c, 0x16, 0x3e, 0x86, 0xea, 0x10, 0x91, 0x50, 0x37, 0x61, 0x97, 0x37,
   0x6e, 0xf9, 0xfd, 0x02, 0x21, 0x2c, 0xb9, 0x83, 0x88, 0x2d, 0x71, 0x54, 0x4e, 0x7e, 0x89, 0xe5,
   0x77, 0x86, 0x1f, 0x20, 0x7f, 0x98, 0xe0, 0x64, 0xac, 0x26, 0x2a, 0x8a, 0x6f, 0xc1, 0x4a, 0x67,
   0xd9, 0x25, 0x87, 0x69, 0x90, 0xf9, 0xb6, 0x71, 0x5f, 0xeb, 0x51, 0x29, 0xa9, 0x94, 0xcc, 0x5e,
   0x21, 0x9b, 0x83, 0xb5, 0xcf, 0xf0, 0x86, 0xc6, 0xcc, 0xd6, 0xbe, 0x54, 0x34, 0xd8, 0x80, 0x8d,
   0x23, 0xfa, 0xf5, 0xe2, 0x05, 0x0e, 0xf7, 0x55, 0x01, 0xeb, 0x2b, 0x31, 0xc1, 0x63, 0x6d, 0x24,
   0x7c, 0xc9, 0xbf, 0x76, 0x0d, 0x88, 0x4c, 0x6c, 0x5e, 0x07, 0xda, 0xc5, 0x22, 0x3f, 0x32, 0xe9,
   0x95, 0x03, 0x75, 0xe6, 0xe9, 0x05, 0xa6, 0x04, 0xaa, 0x03, 0xa1, 0xae, 0xf8, 0x23, 0x68, 0x9e,
   0x06, 0xcc, 0x66, 0xff, 0xd6, 0x68, 0xe1, 0x24, 0x6d, 0x52, 0x31, 0xd3, 0x96, 0xa2, 0xed, 0x4c,
   0xca, 0x59, 0x54, 0x52, 0x58, 0xce, 0x23, 0x26, 0x56, 0xf2, 0xc7, 0x68, 0x07, 0xc7, 0xb0, 0x0d,
   0x12, 0xad, 0xc0, 0x5c, 0x81, 0xac, 0x18, 0x73, 0xff, 0x16, 0x6c, 0x64, 0x40, 0x79, 0x66, 0xbc]

/-- The salt of the encoding. -/
def shortSalt : List UInt8 :=
  [0x5d, 0xa1, 0xaf, 0x2b, 0xed, 0x4c, 0x70, 0x94, 0x4d, 0x5f, 0xe6, 0xa0, 0x55, 0xf1, 0x25, 0x6d,
   0x30, 0x54, 0x5f, 0x0e, 0xea, 0x1f, 0x4c, 0x59, 0xcf, 0xa8, 0xab, 0x1c, 0x71, 0x50, 0xe9, 0x4b]

/-- The hash of the salted message. -/
def shortHash : Digest :=
  ⟨[0x4c, 0xca, 0x59, 0x54, 0x52, 0x58, 0xce, 0x23, 0x26, 0x56, 0xf2, 0xc7, 0x68, 0x07, 0xc7, 0xb0,
     0x0d, 0x12, 0xad, 0xc0, 0x5c, 0x81, 0xac, 0x18, 0x73, 0xff, 0x16, 0x6c, 0x64, 0x40, 0x79, 0x66],
    rfl⟩

/-- The hash of the message. -/
def shortMessageHash : Digest :=
  ⟨[0x26, 0x21, 0x21, 0xc5, 0x37, 0x2b, 0xe8, 0xaf, 0x3a, 0xe6, 0xff, 0x0d, 0x3d, 0x13, 0x8d, 0x9e,
     0x6e, 0x12, 0x49, 0x33, 0x52, 0x22, 0xc7, 0xf0, 0xe0, 0x25, 0x35, 0xe3, 0x50, 0x73, 0xbb, 0x0b],
    rfl⟩

/-- The mask of the hash, of seven hashes. -/
def shortMask : List Digest :=
  [⟨[0xc3, 0x98, 0x19, 0x33, 0x74, 0x84, 0x2b, 0x1c, 0x31, 0xc6, 0x7c, 0xa8, 0x35, 0xc5, 0xed, 0xc1,
       0x33, 0x71, 0x8f, 0xad, 0xd3, 0x39, 0x31, 0x96, 0x1c, 0xf7, 0xb3, 0x0c, 0x10, 0xfb, 0x32, 0x1d], rfl⟩,
    ⟨[0xbf, 0x59, 0x14, 0xff, 0x69, 0x9d, 0xe5, 0xae, 0x0d, 0x3b, 0x4c, 0xb9, 0x6d, 0xfc, 0x89, 0x5e,
       0xfa, 0x8d, 0x85, 0x8b, 0x9f, 0xc2, 0xe5, 0x24, 0x21, 0x66, 0x3d, 0x42, 0x5b, 0x36, 0x34, 0x51], rfl⟩,
    ⟨[0x33, 0x90, 0x81, 0x94, 0x6d, 0x50, 0x99, 0x70, 0xe0, 0xeb, 0x29, 0x97, 0xfc, 0xfd, 0x94, 0x4d,
       0xbf, 0x2a, 0x3f, 0x07, 0x4c, 0x16, 0x3e, 0x86, 0xea, 0x10, 0x91, 0x50, 0x37, 0x61, 0x97, 0x37], rfl⟩,
    ⟨[0x6e, 0xf9, 0xfd, 0x02, 0x21, 0x2c, 0xb9, 0x83, 0x88, 0x2d, 0x71, 0x54, 0x4e, 0x7e, 0x89, 0xe5,
       0x77, 0x86, 0x1f, 0x20, 0x7f, 0x98, 0xe0, 0x64, 0xac, 0x26, 0x2a, 0x8a, 0x6f, 0xc1, 0x4a, 0x67], rfl⟩,
    ⟨[0xd9, 0x25, 0x87, 0x69, 0x90, 0xf9, 0xb6, 0x71, 0x5f, 0xeb, 0x51, 0x29, 0xa9, 0x94, 0xcc, 0x5e,
       0x21, 0x9b, 0x83, 0xb5, 0xcf, 0xf0, 0x86, 0xc6, 0xcc, 0xd6, 0xbe, 0x54, 0x34, 0xd8, 0x80, 0x8d], rfl⟩,
    ⟨[0x23, 0xfa, 0xf5, 0xe2, 0x05, 0x0e, 0xf7, 0x55, 0x01, 0xeb, 0x2b, 0x31, 0xc1, 0x63, 0x6d, 0x24,
       0x7c, 0xc9, 0xbf, 0x76, 0x0d, 0x88, 0x4c, 0x6c, 0x5e, 0x07, 0xda, 0xc5, 0x22, 0x3f, 0x33, 0xb4], rfl⟩,
    ⟨[0x34, 0xac, 0x5e, 0x0b, 0xa5, 0x75, 0x32, 0x49, 0xf5, 0xe5, 0x01, 0xfb, 0x09, 0x06, 0x05, 0xae,
       0x52, 0x93, 0x68, 0x15, 0xc9, 0x24, 0xb8, 0xeb, 0xc5, 0xf9, 0x2d, 0xa2, 0xc6, 0x4b, 0xa6, 0x16], rfl⟩]

/-- What SHA-256 answers in one verification. -/
def shortHashes : List (List UInt8 × Digest) :=
  (utf8 "edit", shortMessageHash) ::
    (List.replicate 8 0 ++ shortMessageHash.toList ++ shortSalt, shortHash) ::
    shortMask.zipIdx.map fun p ↦ (shortHash.toList ++ [0, 0, 0, UInt8.ofNat p.2], p.1)

/-- SHA-256 as far as that verification goes. -/
def shortSha : Sha2 :=
  ⟨fun m ↦ (shortHashes.lookup m).getD (List.Vector.replicate 32 0), fun _ _ ↦ List.Vector.replicate 32 0,
    fun _ _ _ n ↦ List.Vector.replicate n 0⟩

/-- The power of the format is sixteen squarings and a product. -/
theorem pow_exponent_mod (s n : ℕ) :
    s ^ exponent % n = (fun x ↦ x * x % n)^[16] s * s % n := by
  -- square sixteen times, and multiply once more
  have hsquares (k : ℕ) : (fun x ↦ x * x % n)^[k] s % n = s ^ 2 ^ k % n := by
    induction k with
    | zero => rw [pow_zero, pow_one, Function.iterate_zero_apply]
    | succ k ih =>
      rw [Function.iterate_succ_apply', Nat.mod_mod, Nat.mul_mod, ih, ← Nat.mul_mod, ← pow_add, pow_succ,
        Nat.mul_two]
  have hexponent : exponent = 2 ^ 16 + 1 := rfl
  rw [Nat.mul_mod, hsquares, ← Nat.mul_mod, hexponent, pow_succ]

theorem shortSignature_pow :
    encodeBlock (fromBeSlice shortSignature ^ exponent % fromBeSlice shortModulus.toList) =
      shortEncoded := by
  rw [pow_exponent_mod]
  decide +kernel

theorem size_shortModulus : (Pss.os2ip shortModulus.toList).size = 2047 := by
  refine le_antisymm (Nat.size_le.mpr ?_) (Nat.lt_size.mpr ?_)
  · decide +kernel
  · decide +kernel

/-- A signature is accepted under a modulus of 2047 bits. -/
theorem accepted_shortModulus :
    (Pss.os2ip shortModulus.toList).size = 2047 ∧
      verifyPssSha256 shortSha shortModulus (utf8 "edit") shortSignature = .ok () := by
  refine ⟨size_shortModulus, verifyPssSha256_eq_ok_iff.mpr ⟨by decide +kernel, ?_, ?_, ?_⟩⟩
  · decide +kernel
  · decide +kernel
  · rw [shortSignature_pow]
    exact ⟨by decide, by decide +kernel, by decide +kernel, by decide +kernel, by decide +kernel,
      by decide +kernel⟩

end OpenCrate.Crypto.Rsa
