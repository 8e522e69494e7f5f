import Mathlib.Data.Vector.Basic
import Mathlib.Tactic.Common

/-!
# Bytes and fixed-width integers

The little-endian form of a number below `256 ^ k` in `k` bytes (`leBytes`, `leNat`), and its
instances at the fixed-width integer types. Reading takes exactly `k` bytes and never fails on them;
writing and reading are inverse in both directions.
-/

namespace OpenCrate

/-- Thirty-two bytes: a digest, a fingerprint, a key. -/
abbrev Digest := List.Vector UInt8 32

instance : LawfulBEq Digest := inferInstance

/-- The bytes of a text. -/
def utf8 (text : String) : List UInt8 := text.toUTF8.data.toList

/-- The text with the given bytes, if they are one. -/
def fromUtf8? (bytes : List UInt8) : Option String := String.fromUTF8? ⟨bytes.toArray⟩

theorem fromUtf8?_eq_some_iff {bytes : List UInt8} {text : String} :
    fromUtf8? bytes = some text ↔ bytes = utf8 text := by
  constructor
  · intro h
    unfold fromUtf8? String.fromUTF8? at h
    split_ifs at h
    rw [← Option.some_inj.mp h]
    rfl
  · rintro rfl
    unfold fromUtf8? String.fromUTF8?
    exact dif_pos text.isValidUTF8

end OpenCrate

/-! ### Numbers below a power of 256 -/

/-- The `k` low bytes of `n`, least significant first. -/
def leBytes : ℕ → ℕ → List UInt8
  | 0, _ => []
  | k + 1, n => UInt8.ofNat n :: leBytes k (n / 256)

/-- The number with the given bytes, least significant first. -/
def leNat : List UInt8 → ℕ
  | [] => 0
  | b :: bs => b.toNat + 256 * leNat bs

@[simp] theorem length_leBytes (k n : ℕ) : (leBytes k n).length = k := by
  induction k generalizing n with
  | zero => rfl
  | succ k ih => rw [leBytes, List.length_cons, ih]

theorem leNat_lt (bs : List UInt8) : leNat bs < 256 ^ bs.length := by
  induction bs with
  | nil => exact Nat.one_pos
  | cons b bs ih =>
    have hb : b.toNat < 256 := b.toNat_lt
    rw [leNat, List.length_cons, Nat.pow_succ]
    omega

theorem leNat_leBytes {k n : ℕ} (h : n < 256 ^ k) : leNat (leBytes k n) = n := by
  induction k generalizing n with
  | zero =>
    have : n = 0 := by simpa using h
    rw [this]
    rfl
  | succ k ih =>
    have hdiv : n / 256 < 256 ^ k := Nat.div_lt_of_lt_mul (by rwa [Nat.pow_succ, Nat.mul_comm] at h)
    rw [leBytes, leNat, ih hdiv, UInt8.toNat_ofNat']
    omega

/-- A list of bytes is written back from its number. -/
theorem leBytes_leNat (bs : List UInt8) : leBytes bs.length (leNat bs) = bs := by
  induction bs with
  | nil => rfl
  | cons b bs ih =>
    have hb : b.toNat < 256 := b.toNat_lt
    have hmod : (b.toNat + 256 * leNat bs) % 256 = b.toNat := by omega
    have hdiv : (b.toNat + 256 * leNat bs) / 256 = leNat bs := by omega
    rw [List.length_cons, leNat, leBytes, hdiv, ih]
    congr 1
    apply UInt8.toNat_inj.mp
    rw [UInt8.toNat_ofNat', hmod]

/-! ### Fixed-width integers -/

/-- An integer type whose values are exactly the numbers of `width` bytes. -/
class LeInt (τ : Type) where
  width : ℕ
  toNat : τ → ℕ
  ofNat : ℕ → τ
  toNat_lt : ∀ x, toNat x < 256 ^ width
  ofNat_toNat : ∀ x, ofNat (toNat x) = x
  toNat_ofNat : ∀ {n}, n < 256 ^ width → toNat (ofNat n) = n

instance : LeInt UInt16 where
  width := 2
  toNat := UInt16.toNat
  ofNat := UInt16.ofNat
  toNat_lt := UInt16.toNat_lt
  ofNat_toNat x := by simp
  toNat_ofNat h := UInt16.toNat_ofNat'.trans (Nat.mod_eq_of_lt h)

instance : LeInt UInt32 where
  width := 4
  toNat := UInt32.toNat
  ofNat := UInt32.ofNat
  toNat_lt := UInt32.toNat_lt
  ofNat_toNat x := by simp
  toNat_ofNat h := UInt32.toNat_ofNat'.trans (Nat.mod_eq_of_lt h)

instance : LeInt UInt64 where
  width := 8
  toNat := UInt64.toNat
  ofNat := UInt64.ofNat
  toNat_lt := UInt64.toNat_lt
  ofNat_toNat x := by simp
  toNat_ofNat h := UInt64.toNat_ofNat'.trans (Nat.mod_eq_of_lt h)

/-- A signed integer has the bytes of its two's complement. -/
instance : LeInt Int64 where
  width := 8
  toNat x := x.toUInt64.toNat
  ofNat n := (UInt64.ofNat n).toInt64
  toNat_lt x := x.toUInt64.toNat_lt
  ofNat_toNat x := by simp
  toNat_ofNat h := UInt64.toNat_ofNat'.trans (Nat.mod_eq_of_lt h)

@[simp] theorem LeInt.width_uint16 : LeInt.width UInt16 = 2 := rfl

@[simp] theorem LeInt.width_uint32 : LeInt.width UInt32 = 4 := rfl

@[simp] theorem LeInt.width_uint64 : LeInt.width UInt64 = 8 := rfl

@[simp] theorem LeInt.width_int64 : LeInt.width Int64 = 8 := rfl

section LeInt

variable {τ : Type} [LeInt τ]

/-- The bytes of the number, least significant first. -/
def toLeBytes (x : τ) : List UInt8 := leBytes (LeInt.width τ) (LeInt.toNat x)

/-- The number with the given bytes, if there are as many as the type has. -/
def ofLeBytes? (bs : List UInt8) : Option τ :=
  if bs.length = LeInt.width τ then some (LeInt.ofNat (leNat bs)) else none

@[simp] theorem length_toLeBytes (x : τ) : (toLeBytes x).length = LeInt.width τ :=
  length_leBytes _ _

@[simp] theorem ofLeBytes?_toLeBytes (x : τ) : ofLeBytes? (toLeBytes x) = some x := by
  rw [ofLeBytes?, if_pos (length_toLeBytes x), toLeBytes, leNat_leBytes (LeInt.toNat_lt x),
    LeInt.ofNat_toNat]

theorem ofLeBytes?_eq_some_iff {bs : List UInt8} {x : τ} :
    ofLeBytes? bs = some x ↔ bs = toLeBytes x := by
  refine ⟨fun h ↦ ?_, fun h ↦ by rw [h, ofLeBytes?_toLeBytes]⟩
  rw [ofLeBytes?] at h
  split at h
  · next hlen =>
    obtain rfl := Option.some_inj.mp h
    have hlt := leNat_lt bs
    rw [hlen] at hlt
    rw [toLeBytes, LeInt.toNat_ofNat hlt, ← hlen, leBytes_leNat]
  · exact absurd h (by simp)

/-- The bytes of a number, most significant first. -/
def toBeBytes (x : τ) : List UInt8 := (toLeBytes x).reverse

/-- The number with the given bytes, most significant first. -/
def ofBeBytes? (bs : List UInt8) : Option τ := ofLeBytes? bs.reverse

theorem ofBeBytes?_eq_some_iff {bs : List UInt8} {x : τ} :
    ofBeBytes? bs = some x ↔ bs = toBeBytes x := by
  rw [ofBeBytes?, ofLeBytes?_eq_some_iff, toBeBytes, List.reverse_eq_iff]

@[simp] theorem length_toBeBytes (x : τ) : (toBeBytes x).length = LeInt.width τ := by
  rw [toBeBytes, List.length_reverse, length_toLeBytes]

end LeInt

/-! ### Parts of a buffer -/

section Slice

variable {α : Type}

/-- The elements at positions `start` to `stop`, if there are such positions. -/
def slice? (buf : List α) (start stop : ℕ) : Option (List α) :=
  if start ≤ stop ∧ stop ≤ buf.length then some ((buf.drop start).take (stop - start)) else none

/-- A slice lies within the buffer. -/
theorem slice?_eq_some_iff {buf part : List α} {start stop : ℕ} :
    slice? buf start stop = some part ↔
      start ≤ stop ∧ stop ≤ buf.length ∧ (buf.drop start).take (stop - start) = part := by
  rw [slice?]
  split_ifs with h
  · simp [h]
  · simp only [false_iff]
    exact fun ⟨hle, hlen, _⟩ ↦ h ⟨hle, hlen⟩

/-- A part between two others. -/
theorem slice?_append (pre part rest : List α) :
    slice? (pre ++ (part ++ rest)) pre.length (pre.length + part.length) = some part := by
  rw [slice?_eq_some_iff]
  refine ⟨Nat.le_add_right _ _, by simp, ?_⟩
  rw [List.drop_left, Nat.add_sub_cancel_left, List.take_left]

/-- A part of a buffer is a part of every longer one. -/
theorem slice?_append_of_eq_some {buf part : List α} {start stop : ℕ}
    (h : slice? buf start stop = some part) (more : List α) :
    slice? (buf ++ more) start stop = some part := by
  obtain ⟨hle, hlen, hpart⟩ := slice?_eq_some_iff.mp h
  rw [slice?_eq_some_iff]
  refine ⟨hle, by rw [List.length_append]; omega, ?_⟩
  rw [List.drop_append_of_le_length (by omega), List.take_append_of_le_length, hpart]
  rw [List.length_drop]
  omega

/-- A part is followed by the rest of the buffer. -/
theorem drop_eq_append_of_slice? {buf part : List α} {start stop : ℕ}
    (h : slice? buf start stop = some part) :
    buf.drop start = part ++ buf.drop stop ∧ part.length = stop - start := by
  obtain ⟨hle, hlen, rfl⟩ := slice?_eq_some_iff.mp h
  have hdrop : buf.drop stop = (buf.drop start).drop (stop - start) := by
    rw [List.drop_drop, Nat.add_sub_cancel' hle]
  refine ⟨?_, ?_⟩
  · rw [hdrop, List.take_append_drop]
  · rw [List.length_take, List.length_drop]
    omega

/-- A part read off the front of what remains. -/
theorem slice?_of_drop {buf part rest : List α} {start : ℕ} (h : buf.drop start = part ++ rest)
    (hstart : start ≤ buf.length) : slice? buf start (start + part.length) = some part := by
  have hlen := congrArg List.length h
  rw [List.length_drop, List.length_append] at hlen
  refine slice?_eq_some_iff.mpr ⟨Nat.le_add_right _ _, by omega, ?_⟩
  rw [h, Nat.add_sub_cancel_left, List.take_left]

/-- What remains begins with the item at its place. -/
theorem drop_eq_cons_iff {buf rest : List α} {i : ℕ} {a : α} :
    buf.drop i = a :: rest ↔ buf[i]? = some a ∧ rest = buf.drop (i + 1) := by
  constructor
  · intro h
    have hget := congrArg List.head? h
    rw [List.head?_drop, List.head?_cons] at hget
    have htail := congrArg List.tail h
    rw [List.tail_drop, List.tail_cons] at htail
    exact ⟨hget, htail.symm⟩
  · rintro ⟨hget, rfl⟩
    obtain ⟨hi, rfl⟩ := List.getElem?_eq_some_iff.mp hget
    exact List.drop_eq_getElem_cons hi

/-- A list as an array of an exact length. -/
def toVector? (n : ℕ) (l : List α) : Option (List.Vector α n) :=
  if h : l.length = n then some ⟨l, h⟩ else none

theorem toVector?_eq_some_iff {n : ℕ} {l : List α} {v : List.Vector α n} :
    toVector? n l = some v ↔ l = v.toList := by
  constructor
  · intro h
    unfold toVector? at h
    split_ifs at h
    exact Option.some_inj.mp h ▸ rfl
  · rintro rfl
    exact dif_pos v.toList_length

end Slice
