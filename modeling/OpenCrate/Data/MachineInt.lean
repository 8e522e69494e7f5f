import Mathlib.Algebra.Order.Ring.Int
import Mathlib.Algebra.Order.Ring.Nat
import Mathlib.Order.Lattice
import Mathlib.Tactic.Common

/-!
# Fixed-width integers: orders and saturating arithmetic

The linear orders of the fixed-width integer types, over their own `≤` and `<`, and the saturating
operations: the exact result, clamped to the range of the type.
-/

instance UInt16.instLinearOrder : LinearOrder UInt16 where
  le_refl := UInt16.le_refl
  le_trans _ _ _ := UInt16.le_trans
  le_antisymm _ _ := UInt16.le_antisymm
  le_total := UInt16.le_total
  lt_iff_le_not_ge := Std.LawfulOrderLT.lt_iff
  toDecidableLE := inferInstance
  toDecidableEq := inferInstance
  toDecidableLT := inferInstance
  min_def _ _ := rfl
  max_def _ _ := rfl

instance UInt32.instLinearOrder : LinearOrder UInt32 where
  le_refl := UInt32.le_refl
  le_trans _ _ _ := UInt32.le_trans
  le_antisymm _ _ := UInt32.le_antisymm
  le_total := UInt32.le_total
  lt_iff_le_not_ge := Std.LawfulOrderLT.lt_iff
  toDecidableLE := inferInstance
  toDecidableEq := inferInstance
  toDecidableLT := inferInstance
  min_def _ _ := rfl
  max_def _ _ := rfl

instance UInt64.instLinearOrder : LinearOrder UInt64 where
  le_refl := UInt64.le_refl
  le_trans _ _ _ := UInt64.le_trans
  le_antisymm _ _ := UInt64.le_antisymm
  le_total := UInt64.le_total
  lt_iff_le_not_ge := Std.LawfulOrderLT.lt_iff
  toDecidableLE := inferInstance
  toDecidableEq := inferInstance
  toDecidableLT := inferInstance
  min_def _ _ := rfl
  max_def _ _ := rfl

instance Int64.instLinearOrder : LinearOrder Int64 where
  le_refl := Int64.le_refl
  le_trans _ _ _ := Int64.le_trans
  le_antisymm _ _ := Int64.le_antisymm
  le_total := Int64.le_total
  lt_iff_le_not_ge := Std.LawfulOrderLT.lt_iff
  toDecidableLE := inferInstance
  toDecidableEq := inferInstance
  toDecidableLT := inferInstance
  min_def _ _ := rfl
  max_def _ _ := rfl

namespace Int64

/-- The representable integer nearest to an exact result. -/
def clamp (x : Int) : Int64 := Int64.ofInt (max (-2 ^ 63) (min x (2 ^ 63 - 1)))

theorem toInt_clamp (x : Int) : (clamp x).toInt = max (-2 ^ 63) (min x (2 ^ 63 - 1)) :=
  Int64.toInt_ofInt_of_le (by omega) (by omega)

theorem clamp_mono {x y : Int} (h : x ≤ y) : clamp x ≤ clamp y := by
  rw [Int64.le_iff_toInt_le, toInt_clamp, toInt_clamp]
  omega

/-- Clamping does not cross a bound below the greatest integer. -/
theorem clamp_le_iff {x : Int} {c : Int64} (hc : c ≠ maxValue) : clamp x ≤ c ↔ x ≤ c.toInt := by
  have hmax : c.toInt ≠ 2 ^ 63 - 1 := fun h ↦ hc (Int64.toInt_inj.mp h)
  have hlow := c.le_toInt
  have hhigh := c.toInt_lt
  rw [Int64.le_iff_toInt_le, toInt_clamp]
  omega

/-- Clamping does not cross a bound above the least integer. -/
theorem le_clamp_iff {x : Int} {c : Int64} (hc : c ≠ minValue) : c ≤ clamp x ↔ c.toInt ≤ x := by
  have hmin : c.toInt ≠ -2 ^ 63 := fun h ↦ hc (Int64.toInt_inj.mp h)
  have hlow := c.le_toInt
  have hhigh := c.toInt_lt
  rw [Int64.le_iff_toInt_le, toInt_clamp]
  omega

/-- Subtraction clamped to the `i64` range. -/
def saturatingSub (a b : Int64) : Int64 := clamp (a.toInt - b.toInt)

@[simp] theorem saturatingSub_self (a : Int64) : a.saturatingSub a = 0 := by
  rw [saturatingSub, Int.sub_self]
  rfl

theorem saturatingSub_mono {a b c d : Int64} (hab : a ≤ b) (hdc : d ≤ c) :
    a.saturatingSub c ≤ b.saturatingSub d :=
  clamp_mono (Int.sub_le_sub (Int64.le_iff_toInt_le.1 hab) (Int64.le_iff_toInt_le.1 hdc))

/-- Addition clamped to the `i64` range. -/
def saturatingAdd (a b : Int64) : Int64 := clamp (a.toInt + b.toInt)

theorem saturatingAdd_mono_right (a : Int64) {b c : Int64} (h : b ≤ c) :
    a.saturatingAdd b ≤ a.saturatingAdd c :=
  clamp_mono (by have := Int64.le_iff_toInt_le.1 h; omega)

/-- Subtraction, if the difference fits. -/
def checkedSub (a b : Int64) : Option Int64 :=
  let d := a.toInt - b.toInt
  if -2 ^ 63 ≤ d ∧ d < 2 ^ 63 then some (Int64.ofInt d) else none

/-- The value as an unsigned integer, when it is not negative. -/
def toUInt64? (a : Int64) : Option UInt64 :=
  if 0 ≤ a.toInt then some (UInt64.ofNat a.toInt.toNat) else none

/-- A negative value read as zero. -/
theorem toNat_toUInt64?_getD (a : Int64) : (a.toUInt64?.getD 0).toNat = a.toInt.toNat := by
  have hhigh := a.toInt_lt
  rw [toUInt64?]
  split_ifs with h
  · have hfits : a.toInt.toNat < 2 ^ 64 := by omega
    exact UInt64.toNat_ofNat_of_lt' hfits
  · exact (Int.toNat_of_nonpos (by omega)).symm

end Int64

namespace UInt8

/-- A number that fits. -/
def tryFrom (n : ℕ) : Option UInt8 := if n < 2 ^ 8 then some (UInt8.ofNat n) else none

theorem tryFrom_eq_some_iff {n : ℕ} {c : UInt8} : tryFrom n = some c ↔ c.toNat = n := by
  rw [tryFrom, Option.ite_none_right_eq_some, Option.some_inj, ← UInt8.toNat_inj]
  constructor
  · rintro ⟨hlt, heq⟩
    rw [← heq, UInt8.toNat_ofNat_of_lt' hlt]
  · intro h
    have hlt : n < 2 ^ 8 := h ▸ c.toNat_lt
    exact ⟨hlt, (UInt8.toNat_ofNat_of_lt' hlt).trans h.symm⟩

end UInt8

namespace UInt16

/-- A number that fits. -/
def tryFrom (n : ℕ) : Option UInt16 := if n < 2 ^ 16 then some (UInt16.ofNat n) else none

theorem tryFrom_eq_some_iff {n : ℕ} {c : UInt16} : tryFrom n = some c ↔ c.toNat = n := by
  rw [tryFrom]
  split_ifs with h
  · rw [Option.some.injEq]
    constructor
    · rintro rfl
      exact UInt16.toNat_ofNat_of_lt' h
    · rintro rfl
      exact UInt16.ofNat_toNat
  · exact ⟨nofun, fun hc ↦ absurd (hc ▸ c.toNat_lt) h⟩

end UInt16

namespace UInt32

/-- Exactly one bit is set. -/
def isPowerOfTwo (x : UInt32) : Bool := x.toNat == 2 ^ x.toNat.log2

/-- A number that fits. -/
def tryFrom (n : ℕ) : Option UInt32 := if n < 2 ^ 32 then some (UInt32.ofNat n) else none

theorem tryFrom_eq_some_iff {n : ℕ} {c : UInt32} : tryFrom n = some c ↔ c.toNat = n := by
  rw [tryFrom, Option.ite_none_right_eq_some, Option.some_inj, ← UInt32.toNat_inj]
  constructor
  · rintro ⟨hlt, heq⟩
    rw [← heq, UInt32.toNat_ofNat_of_lt' hlt]
  · intro h
    have hlt : n < 2 ^ 32 := h ▸ c.toNat_lt
    exact ⟨hlt, (UInt32.toNat_ofNat_of_lt' hlt).trans h.symm⟩

theorem tryFrom_eq_none_iff {n : ℕ} : tryFrom n = none ↔ 2 ^ 32 ≤ n := by
  rw [tryFrom, ite_eq_right_iff, ← not_lt]
  simp

/-- Addition that does not wrap. -/
def checkedAdd (a b : UInt32) : Option UInt32 := tryFrom (a.toNat + b.toNat)

end UInt32

namespace UInt64

/-- Subtraction stopping at zero. -/
def saturatingSub (a b : UInt64) : UInt64 := UInt64.ofNat (a.toNat - b.toNat)

@[simp] theorem toNat_saturatingSub (a b : UInt64) :
    (a.saturatingSub b).toNat = a.toNat - b.toNat :=
  UInt64.toNat_ofNat_of_lt' ((Nat.sub_le _ _).trans_lt a.toNat_lt)

/-- Addition stopping at `u64::MAX`. -/
def saturatingAdd (a b : UInt64) : UInt64 := UInt64.ofNat (min (a.toNat + b.toNat) (2 ^ 64 - 1))

@[simp] theorem toNat_saturatingAdd (a b : UInt64) :
    (a.saturatingAdd b).toNat = min (a.toNat + b.toNat) (2 ^ 64 - 1) :=
  UInt64.toNat_ofNat_of_lt' ((min_le_right _ _).trans_lt (by decide))

/-- Multiplication stopping at `u64::MAX`. -/
def saturatingMul (a b : UInt64) : UInt64 := UInt64.ofNat (min (a.toNat * b.toNat) (2 ^ 64 - 1))

@[simp] theorem toNat_saturatingMul (a b : UInt64) :
    (a.saturatingMul b).toNat = min (a.toNat * b.toNat) (2 ^ 64 - 1) :=
  UInt64.toNat_ofNat_of_lt' ((min_le_right _ _).trans_lt (by decide))

/-- A number that fits. -/
def tryFrom (n : ℕ) : Option UInt64 := if n < 2 ^ 64 then some (UInt64.ofNat n) else none

theorem tryFrom_eq_some_iff {n : ℕ} {c : UInt64} : tryFrom n = some c ↔ c.toNat = n := by
  rw [tryFrom, Option.ite_none_right_eq_some, Option.some_inj, ← UInt64.toNat_inj]
  constructor
  · rintro ⟨hlt, heq⟩
    rw [← heq, UInt64.toNat_ofNat_of_lt' hlt]
  · intro h
    have hlt : n < 2 ^ 64 := h ▸ c.toNat_lt
    exact ⟨hlt, (UInt64.toNat_ofNat_of_lt' hlt).trans h.symm⟩

theorem tryFrom_eq_none_iff {n : ℕ} : tryFrom n = none ↔ 2 ^ 64 ≤ n := by
  rw [tryFrom, ite_eq_right_iff, ← not_lt]
  simp

theorem exists_toNat {n : ℕ} (h : n < 2 ^ 64) : ∃ c : UInt64, c.toNat = n :=
  ⟨UInt64.ofNat n, UInt64.toNat_ofNat_of_lt' h⟩

/-- Addition that does not wrap. -/
def checkedAdd (a b : UInt64) : Option UInt64 := tryFrom (a.toNat + b.toNat)

/-- Subtraction that does not wrap. -/
def checkedSub (a b : UInt64) : Option UInt64 := if b ≤ a then some (a - b) else none

theorem checkedSub_eq_some_iff {a b c : UInt64} :
    checkedSub a b = some c ↔ c.toNat + b.toNat = a.toNat := by
  rw [checkedSub, Option.ite_none_right_eq_some, Option.some_inj, UInt64.le_iff_toNat_le]
  constructor
  · rintro ⟨hle, rfl⟩
    rw [UInt64.toNat_sub_of_le _ _ (UInt64.le_iff_toNat_le.mpr hle)]
    omega
  · intro h
    have hle : b.toNat ≤ a.toNat := by omega
    refine ⟨hle, UInt64.toNat_inj.mp ?_⟩
    rw [UInt64.toNat_sub_of_le _ _ (UInt64.le_iff_toNat_le.mpr hle)]
    omega

/-- Multiplication that does not wrap. -/
def checkedMul (a b : UInt64) : Option UInt64 := tryFrom (a.toNat * b.toNat)

end UInt64
