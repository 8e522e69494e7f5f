import OpenCrate.Data.Chunks
import OpenCrate.Format.Header

/-!
# The layout of the payload

`Layout` of `oc-format` maps chunks to byte ranges of the file. All chunks but the last are full, so
that an offset is computed by multiplication; every file has at least one chunk, and the only chunk
of an empty file is empty.

The arithmetic is checked. `ciphertextSpan_eq` says what is computed in terms of `ℕ`, and that the
only refusal for a chunk of the file is a range that ends behind the last offset of 64 bits.
-/

namespace OpenCrate.Format

open Except (refuseIf okOr)

/-- Length of the stored nonce. -/
def nonceLen : UInt64 := 24

/-- Length of the authentication tag. -/
def tagLen : UInt64 := 16

/-- Mapping of chunks to ranges of the file. -/
structure Layout where
  chunkSize : UInt32
  nonzero : chunkSize ≠ 0
  chunkCount : UInt32
  totalLen : UInt64
  payloadOffset : UInt64
  deriving DecidableEq

namespace Layout

/-- The number of chunks of a file. -/
def requiredChunks (totalLen : UInt64) (chunkSize : UInt32) : Except FormatError UInt32 :=
  let size := chunkSize.toUInt64
  let full := totalLen / size
  let count := if totalLen % size = 0 then full else full.saturatingAdd 1
  okOr (UInt32.tryFrom (max count 1).toNat) .offsetOverflow

/-- Check consistency and construct the mapping. -/
def new (chunkSize chunkCount : UInt32) (totalLen payloadOffset : UInt64) :
    Except FormatError Layout := do
  let chunkSize ← checkChunkSize chunkSize
  if hsize : chunkSize ≠ 0 then
    let expected ← requiredChunks totalLen chunkSize
    refuseIf (expected ≠ chunkCount) (.chunkCountMismatch expected chunkCount)
    .ok ⟨chunkSize, hsize, chunkCount, totalLen, payloadOffset⟩
  else .error (.badChunkSize 0)

/-- Plaintext length of a chunk: the last chunk is shorter. -/
def plaintextLenOf (l : Layout) (index : UInt32) : Except FormatError UInt64 := do
  refuseIf (l.chunkCount ≤ index) (.chunkOutOfRange index l.chunkCount)
  let size := l.chunkSize.toUInt64
  let start ← okOr (index.toUInt64.checkedMul size) .offsetOverflow
  .ok (min (l.totalLen.saturatingSub start) size)

/-- Range of a chunk in the file: its nonce, ciphertext and tag. -/
def ciphertextSpan (l : Layout) (index : UInt32) : Except FormatError (UInt64 × UInt64) := do
  let plaintextLen ← l.plaintextLenOf index
  let framedFull ← okOr ((l.chunkSize.toUInt64.checkedAdd nonceLen).bind
    fun v ↦ v.checkedAdd tagLen) .offsetOverflow
  let skipped ← okOr (index.toUInt64.checkedMul framedFull) .offsetOverflow
  let start ← okOr (l.payloadOffset.checkedAdd skipped) .offsetOverflow
  let stop ← okOr (((start.checkedAdd nonceLen).bind fun v ↦ v.checkedAdd plaintextLen).bind
    fun v ↦ v.checkedAdd tagLen) .offsetOverflow
  .ok (start, stop)

/-! ### What is computed -/

theorem toNat_chunkSize_bounds {chunkSize size : UInt32} (h : checkChunkSize chunkSize = .ok size) :
    size = chunkSize ∧ 4096 ≤ size.toNat ∧ size.toNat ≤ 1048576 := by
  rw [checkChunkSize] at h
  split_ifs at h with hrange
  obtain rfl := Except.ok.inj h
  exact ⟨rfl, UInt32.le_iff_toNat_le.mp hrange.1.1, UInt32.le_iff_toNat_le.mp hrange.1.2⟩

theorem ceil_eq {len size : ℕ} (hsize : 0 < size) :
    (len + size - 1) / size = if len % size = 0 then len / size else len / size + 1 := by
  have hdiv := Nat.div_add_mod len size
  have hmod := Nat.mod_lt len hsize
  split_ifs with hzero
  · rw [show len + size - 1 = size - 1 + size * (len / size) by omega,
      Nat.add_mul_div_left _ _ hsize, Nat.div_eq_of_lt (by omega), Nat.zero_add]
  · rw [show len + size - 1 = len % size - 1 + size * (len / size + 1) by
        rw [Nat.mul_add]
        omega,
      Nat.add_mul_div_left _ _ hsize, Nat.div_eq_of_lt (by omega), Nat.zero_add]

/-- The count of chunks is the count of the pieces, if it fits. -/
theorem requiredChunks_eq_ok_iff {totalLen : UInt64} {chunkSize count : UInt32}
    (hsize : 0 < chunkSize.toNat) :
    requiredChunks totalLen chunkSize = .ok count ↔
      count.toNat = pieceCount totalLen.toNat chunkSize.toNat := by
  have hzero : totalLen % chunkSize.toUInt64 = 0 ↔ totalLen.toNat % chunkSize.toNat = 0 := by
    rw [← UInt64.toNat_inj, UInt64.toNat_mod, UInt32.toNat_toUInt64]
    rfl
  have hcount : ((max (if totalLen % chunkSize.toUInt64 = 0 then totalLen / chunkSize.toUInt64
      else (totalLen / chunkSize.toUInt64).saturatingAdd 1) 1 : UInt64)).toNat =
      pieceCount totalLen.toNat chunkSize.toNat := by
    rw [UInt64.toNat_max, pieceCount, ceil_eq hsize, max_comm]
    simp only [hzero]
    split_ifs with hrem
    · rw [UInt64.toNat_div, UInt32.toNat_toUInt64]
      rfl
    · -- with a remainder the quotient is not the largest number
      have hlt := totalLen.toNat_lt
      have hle : totalLen.toNat / chunkSize.toNat ≤ totalLen.toNat := Nat.div_le_self _ _
      have hne : totalLen.toNat / chunkSize.toNat ≠ 2 ^ 64 - 1 := by
        have hdiv := Nat.div_add_mod totalLen.toNat chunkSize.toNat
        have hpos : 0 < totalLen.toNat % chunkSize.toNat := Nat.pos_of_ne_zero hrem
        have hmul := Nat.le_mul_of_pos_left (totalLen.toNat / chunkSize.toNat) hsize
        omega
      rw [UInt64.toNat_saturatingAdd, UInt64.toNat_div, UInt32.toNat_toUInt64]
      congr 1
      show min (_ + 1) _ = _
      omega
  rw [requiredChunks, Except.okOr_eq_ok_iff, UInt32.tryFrom_eq_some_iff, hcount]

/-- **When a layout exists**: for a valid chunk size and the number of chunks the length needs. -/
theorem new_eq_ok_iff {chunkSize chunkCount : UInt32} {totalLen payloadOffset : UInt64}
    {l : Layout} :
    new chunkSize chunkCount totalLen payloadOffset = .ok l ↔
      checkChunkSize chunkSize = .ok chunkSize ∧
        chunkCount.toNat = pieceCount totalLen.toNat chunkSize.toNat ∧
        ∃ hsize, l = ⟨chunkSize, hsize, chunkCount, totalLen, payloadOffset⟩ := by
  rw [new, Except.bind_eq_ok_iff]
  constructor
  · rintro ⟨size, hcheck, h⟩
    obtain ⟨rfl, hlow, -⟩ := toNat_chunkSize_bounds hcheck
    split_ifs at h with hsize
    obtain ⟨expected, hexpected, h⟩ := Except.bind_eq_ok_iff.mp h
    obtain ⟨hsame, h⟩ := Except.check_bind_eq_ok_iff.mp h
    rw [Except.refuseIf_eq_ok_iff, not_not] at hsame
    rw [requiredChunks_eq_ok_iff (by omega), hsame] at hexpected
    exact ⟨hcheck, hexpected, hsize, (Except.ok.inj h).symm⟩
  · rintro ⟨hcheck, hcount, hsize, rfl⟩
    have hlow := (toNat_chunkSize_bounds hcheck).2.1
    refine ⟨chunkSize, hcheck, ?_⟩
    rw [dif_pos hsize, (requiredChunks_eq_ok_iff (by omega)).mpr hcount, Except.ok_bind,
      Except.refuseIf_of_not (by simp), Except.ok_bind]

section Spans

variable {l : Layout} {index : UInt32}

theorem chunkSize_pos (l : Layout) : 0 < l.chunkSize.toNat :=
  Nat.pos_of_ne_zero fun hzero ↦ l.nonzero (UInt32.toNat_inj.mp hzero)

/-- Every chunk is full but the last one. -/
theorem plaintextLenOf_eq_ok (hindex : index < l.chunkCount) :
    ∃ len, l.plaintextLenOf index = .ok len ∧
      len.toNat = min (l.totalLen.toNat - index.toNat * l.chunkSize.toNat) l.chunkSize.toNat := by
  have hmul : index.toNat * l.chunkSize.toNat < 2 ^ 64 := by
    show _ < 2 ^ 32 * 2 ^ 32
    exact Nat.mul_lt_mul'' index.toNat_lt l.chunkSize.toNat_lt
  obtain ⟨start, hstart⟩ : ∃ start,
      index.toUInt64.checkedMul l.chunkSize.toUInt64 = some start := by
    rw [← Option.isSome_iff_exists, Option.isSome_iff_ne_none, UInt64.checkedMul, ne_eq,
      UInt64.tryFrom_eq_none_iff, UInt32.toNat_toUInt64, UInt32.toNat_toUInt64]
    omega
  have hnat : start.toNat = index.toNat * l.chunkSize.toNat := by
    rwa [UInt64.checkedMul, UInt64.tryFrom_eq_some_iff, UInt32.toNat_toUInt64,
      UInt32.toNat_toUInt64] at hstart
  refine ⟨min (l.totalLen.saturatingSub start) l.chunkSize.toUInt64, ?_, ?_⟩
  · simp only [plaintextLenOf, Except.refuseIf_of_not (not_le.mpr hindex), Except.ok_bind, hstart,
      Except.okOr_some]
  · rw [UInt64.toNat_min, UInt64.toNat_saturatingSub, UInt32.toNat_toUInt64, hnat]

/-- **The range of a chunk.** It starts behind the full chunks before it, and it is refused only
when it ends behind the last offset. -/
theorem ciphertextSpan_eq_ok_iff {start stop : UInt64} (hindex : index < l.chunkCount) :
    l.ciphertextSpan index = .ok (start, stop) ↔
      start.toNat = l.payloadOffset.toNat + index.toNat * (l.chunkSize.toNat + 40) ∧
        stop.toNat = start.toNat + 40 +
          min (l.totalLen.toNat - index.toNat * l.chunkSize.toNat) l.chunkSize.toNat := by
  obtain ⟨len, hlen, hnat⟩ := plaintextLenOf_eq_ok hindex
  have hnonce : nonceLen.toNat = 24 := rfl
  have htag : tagLen.toNat = 16 := rfl
  rw [ciphertextSpan, hlen, Except.ok_bind, ← hnat]
  simp only [Except.bind_eq_ok_iff, Except.okOr_eq_ok_iff, Option.bind_eq_some_iff,
    UInt64.checkedAdd, UInt64.checkedMul, UInt64.tryFrom_eq_some_iff, UInt32.toNat_toUInt64,
    hnonce, htag, Except.ok.injEq, Prod.mk.injEq]
  constructor
  · rintro ⟨framed, ⟨v, hv, hframed⟩, skipped, hskipped, start', hstart, stop',
      ⟨w, ⟨w', hw', hw⟩, hstop⟩, rfl, rfl⟩
    rw [show framed.toNat = l.chunkSize.toNat + 40 by omega] at hskipped
    exact ⟨by omega, by omega⟩
  · rintro ⟨hstart, hstop⟩
    have hlt := stop.toNat_lt
    have hsize := l.chunkSize.toNat_lt
    obtain ⟨v, hv⟩ := UInt64.exists_toNat (n := l.chunkSize.toNat + 24) (by omega)
    obtain ⟨framed, hframed⟩ := UInt64.exists_toNat (n := l.chunkSize.toNat + 40) (by omega)
    obtain ⟨skipped, hskipped⟩ :=
      UInt64.exists_toNat (n := index.toNat * (l.chunkSize.toNat + 40)) (by omega)
    obtain ⟨w', hw'⟩ := UInt64.exists_toNat (n := start.toNat + 24) (by omega)
    obtain ⟨w, hw⟩ := UInt64.exists_toNat (n := start.toNat + 24 + len.toNat) (by omega)
    exact ⟨framed, ⟨v, hv, by omega⟩, skipped, by rw [hframed, hskipped], start, by omega, stop,
      ⟨w, ⟨w', hw', by omega⟩, by omega⟩, rfl, rfl⟩

end Spans

end Layout

end OpenCrate.Format
