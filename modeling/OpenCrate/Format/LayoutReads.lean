import OpenCrate.Format.Layout

/-!
# Reads of the payload

A file system serves a read of some plaintext bytes by opening the chunks that hold them. `chunksFor`
names these chunks, and no others (`Layout.mapsReads`); the chunks share the plaintext out among them,
and their ranges in the file lie one behind the other without gaps.

Plaintext and ciphertext of chunk `i` begin where those of chunk `i - 1` end. The two sequences of
boundaries (`plainBoundary`, `cipherBoundary`) are monotone, and what a strictly monotone sequence of
boundaries cuts out is a tiling.
-/

namespace OpenCrate.Format.Layout

open Except (refuseIf okOr)

/-- Index of the chunk containing the given plaintext offset. -/
def chunkOf (l : Layout) (plaintextOffset : UInt64) : Except FormatError UInt32 := do
  let index ← okOr (UInt32.tryFrom (plaintextOffset / l.chunkSize.toUInt64).toNat) .offsetOverflow
  refuseIf (l.chunkCount ≤ index) (.chunkOutOfRange index l.chunkCount)
  .ok index

/-- Range of chunks covering a read. An empty read yields nothing, and so does one behind the end. -/
def chunksFor (l : Layout) (offset len : UInt64) : Except FormatError (Option (UInt32 × UInt32)) :=
  if len = 0 ∨ l.totalLen ≤ offset then .ok none
  else do
    let lastByte ← okOr ((offset.checkedAdd len).bind fun stop ↦ stop.checkedSub 1) .offsetOverflow
    let first ← l.chunkOf offset
    let last ← l.chunkOf (min lastByte (l.totalLen.saturatingSub 1))
    let stop ← okOr (last.checkedAdd 1) .offsetOverflow
    .ok (some (first, stop))

/-! ### Boundaries -/

/-- Between two boundaries of a sequence one step crosses a given place. -/
theorem exists_step {f : ℕ → ℕ} {n x : ℕ} (hlow : f 0 ≤ x) (hhigh : x < f n) :
    ∃ i < n, f i ≤ x ∧ x < f (i + 1) := by
  induction n with
  | zero => omega
  | succ n ih =>
    rcases lt_or_ge x (f n) with hlt | hge
    · obtain ⟨i, hi, h⟩ := ih hlt
      exact ⟨i, hi.trans n.lt_succ_self, h⟩
    · exact ⟨n, n.lt_succ_self, hge, hhigh⟩

/-- Where the plaintext of a chunk begins. -/
def plainBoundary (l : Layout) (i : ℕ) : ℕ := min (i * l.chunkSize.toNat) l.totalLen.toNat

/-- Where a chunk begins in the file. -/
def cipherBoundary (l : Layout) (i : ℕ) : ℕ := l.payloadOffset.toNat + l.plainBoundary i + 40 * i

/-- The number of chunks is the one that the length needs. -/
def Exact (l : Layout) : Prop := l.chunkCount.toNat = pieceCount l.totalLen.toNat l.chunkSize.toNat

/-- The layouts that the constructor admits are exact. -/
theorem exact_of_new {chunkSize chunkCount : UInt32} {totalLen payloadOffset : UInt64} {l : Layout}
    (h : new chunkSize chunkCount totalLen payloadOffset = .ok l) : l.Exact := by
  obtain ⟨-, hcount, -, rfl⟩ := new_eq_ok_iff.mp h
  exact hcount

variable {l : Layout} {index : UInt32}

theorem plainBoundary_zero (l : Layout) : l.plainBoundary 0 = 0 := by
  rw [plainBoundary, Nat.zero_mul, Nat.zero_min]

theorem plainBoundary_succ (l : Layout) (i : ℕ) :
    l.plainBoundary (i + 1) = l.plainBoundary i +
      min (l.totalLen.toNat - i * l.chunkSize.toNat) l.chunkSize.toNat := by
  rw [plainBoundary, plainBoundary, Nat.succ_mul]
  omega

theorem monotone_plainBoundary (l : Layout) : Monotone l.plainBoundary :=
  monotone_nat_of_le_succ fun i ↦ l.plainBoundary_succ i ▸ Nat.le_add_right _ _

theorem strictMono_cipherBoundary (l : Layout) : StrictMono l.cipherBoundary :=
  strictMono_nat_of_lt_succ fun i ↦ by
    have hle : l.plainBoundary i ≤ l.plainBoundary (i + 1) := l.monotone_plainBoundary i.le_succ
    rw [cipherBoundary, cipherBoundary]
    omega

namespace Exact

/-- The last boundary is the end of the text. -/
theorem plainBoundary_chunkCount (h : l.Exact) : l.plainBoundary l.chunkCount.toNat = l.totalLen.toNat := by
  rw [plainBoundary, h]
  exact min_eq_right (pieceCount_bounds _ l.chunkSize_pos).2

/-- All chunks but the last are full. -/
theorem plainBoundary_of_lt (h : l.Exact) {i : ℕ} (hi : i < l.chunkCount.toNat) :
    l.plainBoundary i = i * l.chunkSize.toNat := by
  have hlow := (pieceCount_bounds l.totalLen.toNat l.chunkSize_pos).1
  rw [← h] at hlow
  have hmul := Nat.mul_le_mul_right l.chunkSize.toNat (Nat.le_sub_one_of_lt hi)
  exact min_eq_left (hmul.trans hlow)

/-- **The plaintext of a chunk** lies between two boundaries. -/
theorem plaintextLenOf_eq (h : l.Exact) (hindex : index < l.chunkCount) :
    ∃ len, l.plaintextLenOf index = .ok len ∧
      len.toNat + index.toNat * l.chunkSize.toNat = l.plainBoundary (index.toNat + 1) := by
  obtain ⟨len, hlen, hnat⟩ := plaintextLenOf_eq_ok hindex
  refine ⟨len, hlen, ?_⟩
  rw [plainBoundary_succ, h.plainBoundary_of_lt (UInt32.lt_iff_toNat_lt.mp hindex), hnat, Nat.add_comm]

/-- **The range of a chunk** lies between two boundaries. -/
theorem ciphertextSpan_eq_ok_iff (h : l.Exact) (hindex : index < l.chunkCount) {start stop : UInt64} :
    l.ciphertextSpan index = .ok (start, stop) ↔
      start.toNat = l.cipherBoundary index.toNat ∧ stop.toNat = l.cipherBoundary (index.toNat + 1) := by
  have hplain := h.plainBoundary_of_lt (UInt32.lt_iff_toNat_lt.mp hindex)
  rw [Layout.ciphertextSpan_eq_ok_iff hindex, cipherBoundary, cipherBoundary, plainBoundary_succ, hplain,
    Nat.mul_add]
  omega

end Exact

/-! ### The plaintext -/

/-- The chunks share the plaintext out among them. -/
theorem sum_plaintextLenOf (h : l.Exact) {n : ℕ} (hn : n ≤ l.chunkCount.toNat) :
    ∃ lens, (List.range n).mapM (fun i ↦ l.plaintextLenOf (UInt32.ofNat i)) = .ok lens ∧
      (lens.map UInt64.toNat).sum = l.plainBoundary n := by
  -- by induction on the count of chunks: the next one reaches from boundary to boundary
  induction n with
  | zero => exact ⟨[], rfl, l.plainBoundary_zero.symm⟩
  | succ n ih =>
    obtain ⟨lens, hlens, hsum⟩ := ih (Nat.le_of_succ_le hn)
    have hnat : (UInt32.ofNat n).toNat = n :=
      UInt32.toNat_ofNat_of_lt' (lt_trans hn l.chunkCount.toNat_lt)
    have hindex : UInt32.ofNat n < l.chunkCount := UInt32.lt_iff_toNat_lt.mpr (hnat.symm ▸ hn)
    obtain ⟨len, hlen, hplain⟩ := h.plaintextLenOf_eq hindex
    have hlast : [n].mapM (fun i ↦ l.plaintextLenOf (UInt32.ofNat i)) = .ok [len] := by
      rw [List.mapM_cons, hlen]
      rfl
    refine ⟨lens ++ [len], ?_, ?_⟩
    · rw [List.range_succ, List.mapM_append, hlens, Except.ok_bind, hlast]
      rfl
    · rw [hnat, ← h.plainBoundary_of_lt hn] at hplain
      rw [List.map_append, List.sum_append, hsum, ← hplain]
      exact Nat.add_comm _ _

/-- The chunk of a place in the plaintext. -/
theorem mem_chunk_iff (h : l.Exact) (hindex : index < l.chunkCount) {x : ℕ} :
    (∃ len, l.plaintextLenOf index = .ok len ∧ index.toNat * l.chunkSize.toNat ≤ x ∧
        x < index.toNat * l.chunkSize.toNat + len.toNat) ↔
      x < l.totalLen.toNat ∧ x / l.chunkSize.toNat = index.toNat := by
  obtain ⟨len, hlen, hplain⟩ := h.plaintextLenOf_eq hindex
  have hpos := l.chunkSize_pos
  rw [Nat.div_eq_iff l.chunkSize_pos, plainBoundary, Nat.succ_mul] at *
  constructor
  · rintro ⟨len', hlen', hlow, hhigh⟩
    obtain rfl := Except.ok.inj (hlen.symm.trans hlen')
    omega
  · rintro ⟨hx, hlow, hhigh⟩
    exact ⟨len, hlen, by omega, by omega⟩

/-- A position of the text lies in the chunk with its quotient. -/
theorem chunkOf_eq_ok (h : l.Exact) {offset : UInt64} (hlt : offset < l.totalLen) :
    ∃ index, l.chunkOf offset = .ok index ∧ index < l.chunkCount ∧
      index.toNat = offset.toNat / l.chunkSize.toNat := by
  have hcount := (pieceCount_bounds l.totalLen.toNat l.chunkSize_pos).2
  rw [← h] at hcount
  have hdiv : offset.toNat / l.chunkSize.toNat < l.chunkCount.toNat :=
    Nat.div_lt_of_lt_mul ((UInt64.lt_iff_toNat_lt.mp hlt).trans_le (by rwa [Nat.mul_comm]))
  have hnat : (UInt32.ofNat (offset.toNat / l.chunkSize.toNat)).toNat = offset.toNat / l.chunkSize.toNat :=
    UInt32.toNat_ofNat_of_lt' (hdiv.trans l.chunkCount.toNat_lt)
  have hindex : UInt32.ofNat (offset.toNat / l.chunkSize.toNat) < l.chunkCount :=
    UInt32.lt_iff_toNat_lt.mpr (by rwa [hnat])
  refine ⟨_, ?_, hindex, hnat⟩
  have htry : UInt32.tryFrom (offset / l.chunkSize.toUInt64).toNat =
      some (UInt32.ofNat (offset.toNat / l.chunkSize.toNat)) := by
    rw [UInt32.tryFrom_eq_some_iff, hnat, UInt64.toNat_div, UInt32.toNat_toUInt64]
  rw [chunkOf, htry, Except.okOr_some, Except.ok_bind, Except.refuseIf_of_not (not_le.mpr hindex),
    Except.ok_bind]

/-- **The chunks of a read.** -/
theorem chunksFor_eq (h : l.Exact) {offset len : UInt64} (hfits : offset.toNat + len.toNat < 2 ^ 64) :
    (l.chunksFor offset len = .ok none ∧
        ¬∃ x, offset.toNat ≤ x ∧ x < offset.toNat + len.toNat ∧ x < l.totalLen.toNat) ∨
      ∃ first stop, l.chunksFor offset len = .ok (some (first, stop)) ∧
        (∃ x, offset.toNat ≤ x ∧ x < offset.toNat + len.toNat ∧ x < l.totalLen.toNat) ∧
        ∀ i : UInt32, first ≤ i ∧ i < stop ↔ i < l.chunkCount ∧
          ∃ x, offset.toNat ≤ x ∧ x < offset.toNat + len.toNat ∧
            x < l.totalLen.toNat ∧ x / l.chunkSize.toNat = i.toNat := by
  by_cases hempty : len = 0 ∨ l.totalLen ≤ offset
  · refine .inl ⟨by rw [chunksFor, if_pos hempty], ?_⟩
    rintro ⟨x, hlow, hhigh, hx⟩
    rcases hempty with rfl | hle
    · exact absurd hhigh (not_lt.mpr hlow)
    · have := UInt64.le_iff_toNat_le.mp hle
      omega
  · refine .inr ?_
    rw [not_or, UInt64.not_le] at hempty
    have hlen : 0 < len.toNat := Nat.pos_of_ne_zero fun hzero ↦ hempty.1 (UInt64.toNat_inj.mp hzero)
    have hoffset := UInt64.lt_iff_toNat_lt.mp hempty.2
    -- the last byte of the read that there is
    have hstop : ∃ lastByte, ((offset.checkedAdd len).bind fun stop ↦ stop.checkedSub 1) = some lastByte ∧
        lastByte.toNat + 1 = offset.toNat + len.toNat := by
      obtain ⟨stop, hstop⟩ := UInt64.exists_toNat hfits
      obtain ⟨lastByte, hlast⟩ := UInt64.exists_toNat (n := stop.toNat - 1) (by omega)
      refine ⟨lastByte, Option.bind_eq_some_iff.mpr ⟨stop, UInt64.tryFrom_eq_some_iff.mpr hstop, ?_⟩, by omega⟩
      rw [UInt64.checkedSub_eq_some_iff, show (1 : UInt64).toNat = 1 from rfl]
      omega
    obtain ⟨lastByte, hlastByte, hnat⟩ := hstop
    have hmin : (min lastByte (l.totalLen.saturatingSub 1)).toNat =
        min (offset.toNat + len.toNat - 1) (l.totalLen.toNat - 1) := by
      rw [UInt64.toNat_min, UInt64.toNat_saturatingSub, show (1 : UInt64).toNat = 1 from rfl, ← hnat,
        Nat.add_sub_cancel]
    have hlastlt : min lastByte (l.totalLen.saturatingSub 1) < l.totalLen := by
      rw [UInt64.lt_iff_toNat_lt, hmin]
      omega
    obtain ⟨first, hfirst, -, hfirstNat⟩ := chunkOf_eq_ok h hempty.2
    obtain ⟨last, hlast, hlastCount, hlastNat⟩ := chunkOf_eq_ok h hlastlt
    obtain ⟨stop, hstop⟩ : ∃ stop, last.checkedAdd 1 = some stop ∧ stop.toNat = last.toNat + 1 := by
      have hle := Nat.succ_le_of_lt (UInt32.lt_iff_toNat_lt.mp hlastCount)
      have hnat : (UInt32.ofNat (last.toNat + 1)).toNat = last.toNat + 1 :=
        UInt32.toNat_ofNat_of_lt' (hle.trans_lt l.chunkCount.toNat_lt)
      exact ⟨_, UInt32.tryFrom_eq_some_iff.mpr hnat, hnat⟩
    refine ⟨first, stop, ?_, ⟨offset.toNat, le_rfl, by omega, hoffset⟩, fun i ↦ ?_⟩
    · rw [chunksFor, if_neg (by rwa [not_or, UInt64.not_le]), hlastByte, Except.okOr_some, Except.ok_bind,
        hfirst, Except.ok_bind, hlast, Except.ok_bind, hstop.1, Except.okOr_some, Except.ok_bind]
    · rw [UInt32.le_iff_toNat_le, UInt32.lt_iff_toNat_lt, UInt32.lt_iff_toNat_lt, hstop.2, Nat.lt_succ_iff,
        hfirstNat, hlastNat, hmin]
      rw [UInt32.lt_iff_toNat_lt, hlastNat, hmin] at hlastCount
      have hpos := l.chunkSize_pos
      constructor
      · rintro ⟨hlow, hhigh⟩
        refine ⟨hhigh.trans_lt hlastCount, max offset.toNat (i.toNat * l.chunkSize.toNat), le_max_left _ _, ?_⟩
        have hlow' := Nat.lt_mul_of_div_lt (Nat.lt_succ_of_le hlow) hpos
        have hhigh' := (Nat.le_div_iff_mul_le hpos).mp hhigh
        rw [Nat.div_eq_iff hpos]
        rw [Nat.succ_mul] at hlow'
        omega
      · rintro ⟨-, x, hlow, hhigh, hx, hchunk⟩
        rw [← hchunk]
        exact ⟨Nat.div_le_div_right hlow, Nat.div_le_div_right (by omega)⟩

theorem lt_of_plaintextLenOf {len : UInt64} (h : l.plaintextLenOf index = .ok len) :
    index < l.chunkCount := by
  rw [plaintextLenOf, Except.check_bind_eq_ok_iff, Except.refuseIf_eq_ok_iff] at h
  exact not_le.mp h.1

/-! ### The file -/

/-- The ranges of the chunks lie one behind the other from `lo` to `hi`, without gaps. -/
structure Covers (l : Layout) (lo hi : ℕ) : Prop where
  /-- Every chunk has a range. -/
  exists_span : ∀ i < l.chunkCount, ∃ span, l.ciphertextSpan i = .ok span
  first : ∀ start stop, l.ciphertextSpan 0 = .ok (start, stop) → start.toNat = lo
  /-- A range begins where the one before it ends. -/
  consecutive : ∀ i start stop, i + 1 < l.chunkCount → i < i + 1 →
    l.ciphertextSpan i = .ok (start, stop) → ∃ stop', l.ciphertextSpan (i + 1) = .ok (stop, stop')
  /-- The ranges cover what they should, and nothing else. -/
  covers : ∀ x, lo ≤ x ∧ x < hi ↔
    ∃ i start stop, l.ciphertextSpan i = .ok (start, stop) ∧ start.toNat ≤ x ∧ x < stop.toNat
  disjoint : ∀ i j start stop start' stop' x, l.ciphertextSpan i = .ok (start, stop) →
    l.ciphertextSpan j = .ok (start', stop') → start.toNat ≤ x → x < stop.toNat →
    start'.toNat ≤ x → x < stop'.toNat → i = j

theorem lt_of_ciphertextSpan {span : UInt64 × UInt64} (h : l.ciphertextSpan index = .ok span) :
    index < l.chunkCount := by
  rw [ciphertextSpan, Except.bind_eq_ok_iff] at h
  obtain ⟨len, hlen, -⟩ := h
  exact lt_of_plaintextLenOf hlen

theorem Exact.cipherBoundary_chunkCount (h : l.Exact) : l.cipherBoundary l.chunkCount.toNat =
    l.payloadOffset.toNat + l.totalLen.toNat + 40 * l.chunkCount.toNat := by
  rw [cipherBoundary, h.plainBoundary_chunkCount]

/-- **The ranges tile the payload**, if it ends within 64 bits. -/
theorem Exact.tiles (h : l.Exact)
    (hfits : l.payloadOffset.toNat + l.totalLen.toNat + 40 * l.chunkCount.toNat < 2 ^ 64) :
    l.Covers l.payloadOffset.toNat
      (l.payloadOffset.toNat + l.totalLen.toNat + 40 * l.chunkCount.toNat) := by
  have hmono := l.strictMono_cipherBoundary
  have hzero : l.cipherBoundary 0 = l.payloadOffset.toNat := by
    rw [cipherBoundary, plainBoundary_zero]
    rfl
  rw [← h.cipherBoundary_chunkCount] at hfits ⊢
  have hspan : ∀ {i : UInt32}, i < l.chunkCount → ∃ start stop, l.ciphertextSpan i = .ok (start, stop) := by
    intro i hi
    have hi' := UInt32.lt_iff_toNat_lt.mp hi
    obtain ⟨start, hstart⟩ := UInt64.exists_toNat ((hmono hi').trans hfits)
    obtain ⟨stop, hstop⟩ := UInt64.exists_toNat
      ((hmono.monotone (Nat.succ_le_of_lt hi')).trans_lt hfits)
    exact ⟨start, stop, (h.ciphertextSpan_eq_ok_iff hi).mpr ⟨hstart, hstop⟩⟩
  have hread : ∀ {i start stop}, l.ciphertextSpan i = .ok (start, stop) →
      start.toNat = l.cipherBoundary i.toNat ∧ stop.toNat = l.cipherBoundary (i.toNat + 1) :=
    fun hok ↦ (h.ciphertextSpan_eq_ok_iff (lt_of_ciphertextSpan hok)).mp hok
  refine ⟨fun i hi ↦ ?_, fun start stop hok ↦ ?_, fun i start stop hnext hlt hok ↦ ?_, fun x ↦ ?_,
    fun i j start stop start' stop' x hi hj hlow hhigh hlow' hhigh' ↦ ?_⟩
  · obtain ⟨start, stop, hok⟩ := hspan hi
    exact ⟨_, hok⟩
  · exact (hread hok).1.trans hzero
  · obtain ⟨start', stop', hok'⟩ := hspan hnext
    have hnat : (i + 1).toNat = i.toNat + 1 := by
      have hi := UInt32.lt_iff_toNat_lt.mp hlt
      rw [UInt32.toNat_add] at hi ⊢
      have := i.toNat_lt
      simp only [UInt32.reduceToNat] at hi ⊢
      omega
    obtain rfl : start' = stop := by
      rw [← UInt64.toNat_inj, (hread hok').1, (hread hok).2, hnat]
    exact ⟨stop', hok'⟩
  · constructor
    · rintro ⟨hlow, hhigh⟩
      obtain ⟨n, hn, hle, hlt⟩ := exists_step (hzero.trans_le hlow) hhigh
      have hnat : (UInt32.ofNat n).toNat = n := UInt32.toNat_ofNat_of_lt' (lt_trans hn l.chunkCount.toNat_lt)
      have hindex : UInt32.ofNat n < l.chunkCount := UInt32.lt_iff_toNat_lt.mpr (hnat.symm ▸ hn)
      obtain ⟨start, stop, hok⟩ := hspan hindex
      obtain ⟨hstart, hstop⟩ := hread hok
      rw [hnat] at hstart hstop
      exact ⟨_, start, stop, hok, hstart.trans_le hle, hlt.trans_eq hstop.symm⟩
    · rintro ⟨i, start, stop, hok, hlow, hhigh⟩
      obtain ⟨hstart, hstop⟩ := hread hok
      have hi := UInt32.lt_iff_toNat_lt.mp (lt_of_ciphertextSpan hok)
      have hfirst := hmono.monotone (Nat.zero_le i.toNat)
      have hlast : l.cipherBoundary (i.toNat + 1) ≤ _ := hmono.monotone (Nat.succ_le_of_lt hi)
      exact ⟨by omega, by omega⟩
  · obtain ⟨hstart, hstop⟩ := hread hi
    obtain ⟨hstart', hstop'⟩ := hread hj
    have hij := hmono.lt_iff_lt.mp (hstart.symm.trans_lt (hlow.trans_lt (hhigh'.trans_eq hstop')))
    have hji := hmono.lt_iff_lt.mp (hstart'.symm.trans_lt (hlow'.trans_lt (hhigh.trans_eq hstop)))
    exact UInt32.toNat_inj.mp (by omega)

/-! ### Reads -/

/-- The read meets the plaintext. -/
def Meets (l : Layout) (offset len : UInt64) : Prop :=
  ∃ x, offset.toNat ≤ x ∧ x < offset.toNat + len.toNat ∧ x < l.totalLen.toNat

/-- The read meets the plaintext of a chunk. -/
def MeetsChunk (l : Layout) (offset len : UInt64) (i : UInt32) : Prop :=
  ∃ plain, l.plaintextLenOf i = .ok plain ∧
    ∃ x, offset.toNat ≤ x ∧ x < offset.toNat + len.toNat ∧
      i.toNat * l.chunkSize.toNat ≤ x ∧ x < i.toNat * l.chunkSize.toNat + plain.toNat

/-- **A layout maps reads exactly.** The chunks share out the plaintext; their ranges tile the payload;
and a read is served by the chunks whose plaintext it meets, which are none if it meets no plaintext. -/
theorem mapsReads (chunkSize chunkCount : UInt32) (totalLen payloadOffset : UInt64) (l : Layout)
    (hnew : new chunkSize chunkCount totalLen payloadOffset = .ok l) :
    (∃ lens, (List.range l.chunkCount.toNat).mapM (fun i ↦ l.plaintextLenOf (UInt32.ofNat i)) = .ok lens ∧
        (lens.map UInt64.toNat).sum = l.totalLen.toNat) ∧
      (l.payloadOffset.toNat + l.totalLen.toNat + 40 * l.chunkCount.toNat < 2 ^ 64 →
        l.Covers l.payloadOffset.toNat
          (l.payloadOffset.toNat + l.totalLen.toNat + 40 * l.chunkCount.toNat)) ∧
      ∀ offset len : UInt64, offset.toNat + len.toNat < 2 ^ 64 →
        (l.chunksFor offset len = .ok none ↔ ¬l.Meets offset len) ∧
          (l.Meets offset len → ∃ first stop, l.chunksFor offset len = .ok (some (first, stop)) ∧
            ∀ i, first ≤ i ∧ i < stop ↔ l.MeetsChunk offset len i) := by
  have h := exact_of_new hnew
  refine ⟨?_, h.tiles, fun offset len hfits ↦ ?_⟩
  · rw [← h.plainBoundary_chunkCount]
    exact sum_plaintextLenOf h le_rfl
  · rcases chunksFor_eq h hfits with ⟨hnone, hmeets⟩ | ⟨first, stop, hsome, hmeets, hchunks⟩
    · exact ⟨iff_of_true hnone hmeets, fun hx ↦ absurd hx hmeets⟩
    · refine ⟨iff_of_false (hsome ▸ nofun) (not_not.mpr hmeets), fun _ ↦ ⟨first, stop, hsome, fun i ↦ ?_⟩⟩
      rw [hchunks, MeetsChunk]
      constructor
      · rintro ⟨hi, x, hlow, hhigh, hx, hchunk⟩
        obtain ⟨plain, hplain, hrange⟩ := (mem_chunk_iff h hi).mpr ⟨hx, hchunk⟩
        exact ⟨plain, hplain, x, hlow, hhigh, hrange⟩
      · rintro ⟨plain, hplain, x, hlow, hhigh, hrange⟩
        have hi := lt_of_plaintextLenOf hplain
        exact ⟨hi, x, hlow, hhigh, (mem_chunk_iff h hi).mp ⟨plain, hplain, hrange⟩⟩

/-- A file of five thousand bytes in two chunks. -/
theorem mapsReads_two_chunks :
    ∃ l, new 4096 2 5000 300 = .ok l ∧ l.Covers 300 5380 ∧
      ∃ first stop, l.chunksFor 4000 100 = .ok (some (first, stop)) ∧
        ∀ i, first ≤ i ∧ i < stop ↔ l.MeetsChunk 4000 100 i :=
  have hnew : new 4096 2 5000 300 = .ok ⟨4096, by decide, 2, 5000, 300⟩ := rfl
  have h := mapsReads 4096 2 5000 300 _ hnew
  ⟨_, hnew, h.2.1 (by decide), (h.2.2 4000 100 (by decide)).2 ⟨4000, by decide⟩⟩

end OpenCrate.Format.Layout
