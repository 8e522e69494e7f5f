import OpenCrate.Data.MerkleConsistency
import Mathlib.Algebra.Order.Ring.Nat
import Mathlib.Tactic.Ring

/-!
# Merkle trees split from the top

The recursive description of the same trees: a list of `n ≥ 2` leaves is split at the largest power
of two below `n`, and the apex is the node over the apexes of the two parts. Level by level
(`pairUp`) and top-down (`mth`) give one tree: the split point of a level is half the split point of
the level below (`IsSplit.half`), so the left part stays complete on every level.

`subproof` collects a consistency path in this order. It is the bottom-up path of
`OpenCrate.Data.MerkleConsistency`, up to the apex of a prefix that is a complete subtree, which a
verifier that knows it does not need to be told (`prefix_append_subproof`).
-/

namespace Merkle

variable {α : Type} (node : α → α → α)

/-! ### The split point -/

/-- Double `k` while its double is still below `n`. -/
def splitFrom (k n : ℕ) : ℕ :=
  if 0 < k ∧ k * 2 < n then splitFrom (k * 2) n else k
termination_by n - k
decreasing_by omega

/-- The largest power of two strictly below `n`, for `n ≥ 2`. -/
def splitPoint (n : ℕ) : ℕ := splitFrom 1 n

/-- `k` is the power of two with `k < n ≤ 2 * k`. -/
structure IsSplit (k n : ℕ) : Prop where
  pow : ∃ j, k = 2 ^ j
  lt : k < n
  le : n ≤ 2 * k

theorem isSplit_splitFrom {k n : ℕ} (hk : ∃ j, k = 2 ^ j) (hlt : k < n) :
    IsSplit (splitFrom k n) n := by
  induction k using splitFrom.induct n with
  | case1 k h ih =>
    rw [splitFrom, if_pos h]
    obtain ⟨j, rfl⟩ := hk
    exact ih ⟨j + 1, (Nat.pow_succ 2 j).symm⟩ h.2
  | case2 k h =>
    rw [splitFrom, if_neg h]
    have hpos : 0 < k := by
      obtain ⟨j, rfl⟩ := hk
      exact Nat.two_pow_pos j
    exact ⟨hk, hlt, by omega⟩

theorem isSplit_splitPoint {n : ℕ} (hn : 1 < n) : IsSplit (splitPoint n) n :=
  isSplit_splitFrom ⟨0, rfl⟩ hn

namespace IsSplit

variable {k n : ℕ}

theorem pos (h : IsSplit k n) : 0 < k := by
  have := h.lt
  have := h.le
  omega

/-- Above two leaves the split point is even, and its half splits the next level. -/
theorem half (h : IsSplit k n) (hn : 2 < n) : k = 2 * (k / 2) ∧ IsSplit (k / 2) ((n + 1) / 2) := by
  obtain ⟨⟨j, hj⟩, hlt, hle⟩ := h
  obtain ⟨i, rfl⟩ : ∃ i, j = i + 1 := by
    rcases j with - | i
    · omega
    · exact ⟨i, rfl⟩
  have hk : k = 2 * 2 ^ i := by rw [hj, Nat.pow_succ, Nat.mul_comm]
  have hhalf : k / 2 = 2 ^ i := by omega
  exact ⟨by omega, ⟨i, hhalf⟩, by omega, by omega⟩

theorem eq_one (h : IsSplit k n) (hn : n ≤ 2) : k = 1 := by
  have := h.lt
  have := h.pos
  omega

/-- No power of two lies strictly between a split point and its list's length. -/
theorem ne_two_pow (h : IsSplit k n) {m : ℕ} (hkm : k < m) (hmn : m < n) (j : ℕ) : m ≠ 2 ^ j := by
  rintro rfl
  obtain ⟨⟨i, rfl⟩, -, hle⟩ := h
  have hij : i < j := (Nat.pow_lt_pow_iff_right Nat.one_lt_two).mp hkm
  have hle' : 2 ^ (i + 1) ≤ 2 ^ j := Nat.pow_le_pow_right Nat.two_pos hij
  rw [Nat.pow_succ] at hle'
  omega

end IsSplit

/-! ### A tree and its two parts -/

/-- **Induction along the levels.** A property of a split list holds if it holds of two leaves, and
goes down from the next level, where the two parts are the next levels of the two parts. -/
@[elab_as_elim]
theorem IsSplit.induction {motive : (l : List α) → (k : ℕ) → IsSplit k l.length → Prop}
    (two : ∀ (a b : α) (h : IsSplit 1 [a, b].length), motive [a, b] 1 h)
    (step : ∀ (l : List α) (k : ℕ) (h : IsSplit k l.length)
      (h' : IsSplit (k / 2) (pairUp node l).length), k = 2 * (k / 2) →
      pairUp node (l.take k) = (pairUp node l).take (k / 2) →
      pairUp node (l.drop k) = (pairUp node l).drop (k / 2) →
      motive (pairUp node l) (k / 2) h' → motive l k h)
    (l : List α) (k : ℕ) (h : IsSplit k l.length) : motive l k h := by
  induction hn : l.length using Nat.strongRecOn generalizing l k with
  | ind n ih =>
    subst hn
    rcases Nat.lt_or_ge 2 l.length with hn | hn
    · -- a larger split is even, so the next level is split at half of it
      obtain ⟨heven, hhalf⟩ := h.half hn
      have hlt : (pairUp node l).length < l.length := by
        rw [length_pairUp]
        omega
      have h' : IsSplit (k / 2) (pairUp node l).length := by rwa [length_pairUp]
      refine step l k h h' heven ?_ ?_ (ih _ hlt _ _ h' rfl)
      · rw [← pairUp_take, ← heven]
      · rw [← pairUp_drop, ← heven]
    · obtain rfl := h.eq_one hn
      obtain ⟨a, b, rfl⟩ : ∃ a b, l = [a, b] := List.length_eq_two.mp (by
        have := h.lt
        omega)
      exact two a b h

section Split

variable {node} {l : List α} {k : ℕ}

/-- The apex is the node over the apexes of the two parts. -/
theorem apex_split (node : α → α → α) (h : IsSplit k l.length) :
    ∃ a b, apex node (l.take k) = some a ∧ apex node (l.drop k) = some b ∧
      apex node l = some (node a b) := by
  induction l, k, h using IsSplit.induction node with
  | two a b h =>
    refine ⟨a, b, apex_singleton a, apex_singleton b, ?_⟩
    rw [← apex_pairUp]
    exact apex_singleton _
  | step l k h h' heven htake hdrop ih =>
    obtain ⟨a, b, ha, hb, hab⟩ := ih
    refine ⟨a, b, ?_, ?_, ?_⟩
    · rw [← apex_pairUp, htake, ha]
    · rw [← apex_pairUp, hdrop, hb]
    · rw [← apex_pairUp, hab]

/-- A path from the left part ends with the apex of the right part. -/
theorem auditPath_split_left (h : IsSplit k l.length) {i : ℕ} (hi : i < k) :
    auditPath node l i = auditPath node (l.take k) i ++ (apex node (l.drop k)).toList := by
  induction l, k, h using IsSplit.induction node generalizing i with
  | two a b h =>
    obtain rfl : i = 0 := by omega
    rw [auditPath_step (by simp)]
    simp [auditPath, sibling]
  | step l k h h' heven htake hdrop ih =>
    have hlt := h.lt
    have hsib : (l.take k)[sibling i]? = l[sibling i]? := by
      refine List.getElem?_take_of_lt ?_
      rw [sibling]
      split <;> omega
    have hi' : i < (l.take k).length := by
      rw [List.length_take]
      omega
    rw [auditPath_step (hi.trans hlt), ih (by omega : i / 2 < k / 2), auditPath_step hi', hsib,
      htake, ← hdrop, apex_pairUp, List.append_assoc]

/-- A path from the right part ends with the apex of the left part. -/
theorem auditPath_split_right (h : IsSplit k l.length) {i : ℕ} (hki : k ≤ i) (hi : i < l.length) :
    auditPath node l i = auditPath node (l.drop k) (i - k) ++ (apex node (l.take k)).toList := by
  induction l, k, h using IsSplit.induction node generalizing i with
  | two a b h =>
    obtain rfl : i = 1 := by
      simp only [List.length_cons, List.length_nil] at hi
      omega
    rw [auditPath_step (by simp)]
    simp [auditPath, sibling]
  | step l k h h' heven htake hdrop ih =>
    have hsib : (l.drop k)[sibling (i - k)]? = l[sibling i]? := by
      rw [List.getElem?_drop]
      congr 1
      rw [sibling, sibling]
      split <;> split <;> omega
    have hi' : i - k < (l.drop k).length := by
      rw [List.length_drop]
      omega
    have hup : i / 2 < (pairUp node l).length := by
      rw [length_pairUp]
      omega
    have hhalf : i / 2 - k / 2 = (i - k) / 2 := by omega
    rw [auditPath_step hi, ih (by omega) hup, auditPath_step hi', hsib, hdrop, hhalf, ← htake,
      apex_pairUp, List.append_assoc]

theorem consistencyPath_of_odd (l : List α) {m : ℕ} (hm : m % 2 = 1) :
    consistencyPath node l m = l[m - 1]?.toList ++ auditPath node l (m - 1) := by
  rw [consistencyPath, if_neg (by omega)]

theorem consistencyPath_of_even (l : List α) {m : ℕ} (hm : 0 < m) (h0 : m % 2 = 0) :
    consistencyPath node l m = consistencyPath node (pairUp node l) (m / 2) := by
  rw [consistencyPath, if_pos ⟨h0, by omega⟩]

/-- A consistency path from within the left part ends with the apex of the right part. -/
theorem consistencyPath_split_left (h : IsSplit k l.length) {m : ℕ} (hm : 0 < m) (hmk : m ≤ k) :
    consistencyPath node l m =
      consistencyPath node (l.take k) m ++ (apex node (l.drop k)).toList := by
  -- an odd prefix climbs from its last leaf, an even one starts a level higher
  have hodd : ∀ {l : List α} {k m : ℕ}, IsSplit k l.length → m ≤ k → m % 2 = 1 →
      consistencyPath node l m =
        consistencyPath node (l.take k) m ++ (apex node (l.drop k)).toList := by
    intro l k m h hmk h1
    rw [consistencyPath_of_odd l h1, consistencyPath_of_odd (l.take k) h1,
      auditPath_split_left h (by omega : m - 1 < k), List.getElem?_take_of_lt (by omega),
      List.append_assoc]
  induction l, k, h using IsSplit.induction node generalizing m with
  | two a b h => exact hodd h hmk (by omega)
  | step l k h h' heven htake hdrop ih =>
    rcases Nat.mod_two_eq_zero_or_one m with h0 | h1
    · rw [consistencyPath_of_even l hm h0, ih (by omega) (by omega),
        consistencyPath_of_even (l.take k) hm h0, htake, ← hdrop, apex_pairUp]
    · exact hodd h hmk h1

/-- A consistency path from within the right part ends with the apex of the left part. -/
theorem consistencyPath_split_right (h : IsSplit k l.length) {m : ℕ} (hkm : k < m)
    (hm : m < l.length) :
    consistencyPath node l m =
      consistencyPath node (l.drop k) (m - k) ++ (apex node (l.take k)).toList := by
  induction l, k, h using IsSplit.induction node generalizing m with
  | two a b h =>
    simp only [List.length_cons, List.length_nil] at hm
    omega
  | step l k h h' heven htake hdrop ih =>
    have hpos := h.pos
    -- an even prefix is halved along with the split, and an odd one has an audit path
    rcases Nat.mod_two_eq_zero_or_one m with h0 | h1
    · have hup : m / 2 < (pairUp node l).length := by
        rw [length_pairUp]
        omega
      have hhalf : m / 2 - k / 2 = (m - k) / 2 := by omega
      rw [consistencyPath_of_even l (by omega) h0, ih (by omega) hup,
        consistencyPath_of_even (l.drop k) (by omega) (by omega), hdrop, hhalf, ← htake,
        apex_pairUp]
    · have hpos' : m - k - 1 = m - 1 - k := by omega
      have hsum : k + (m - 1 - k) = m - 1 := by omega
      rw [consistencyPath_of_odd l h1, consistencyPath_of_odd (l.drop k) (by omega),
        auditPath_split_right h (by omega) (by omega), hpos', List.getElem?_drop, hsum,
        List.append_assoc]

/-- A complete tree of two-power size is its own consistency path. -/
theorem consistencyPath_two_pow {j : ℕ} (hl : l.length = 2 ^ j) :
    consistencyPath node l (2 ^ j) = (apex node l).toList := by
  induction j generalizing l with
  | zero =>
    obtain ⟨a, rfl⟩ := List.length_eq_one_iff.mp hl
    rw [consistencyPath_of_odd _ (by decide), auditPath]
    simp
  | succ j ih =>
    have hhalf : 2 ^ (j + 1) / 2 = 2 ^ j := by rw [Nat.pow_succ, Nat.mul_div_cancel _ Nat.two_pos]
    have hup : (pairUp node l).length = 2 ^ j := by
      rw [length_pairUp, hl, Nat.pow_succ]
      omega
    rw [consistencyPath_of_even l (Nat.two_pow_pos _) (by rw [Nat.pow_succ]; omega), hhalf, ih hup,
      apex_pairUp]

end Split

/-! ### The recursion from the top -/

/-- The apex, computed from the two parts; an empty list has none. -/
def mth (l : List α) : Option α :=
  match l with
  | [] => none
  | [only] => some only
  | a :: b :: rest =>
    (mth ((a :: b :: rest).take (splitPoint (rest.length + 2)))).bind fun left ↦
      (mth ((a :: b :: rest).drop (splitPoint (rest.length + 2)))).map (node left)
termination_by l.length
decreasing_by
  · have h := (isSplit_splitPoint (n := rest.length + 2) (by omega)).lt
    simp only [List.length_take, List.length_cons]
    omega
  · have h := (isSplit_splitPoint (n := rest.length + 2) (by omega)).pos
    simp only [List.length_drop, List.length_cons]
    omega

/-- **The two constructions agree.** -/
theorem mth_eq_apex (l : List α) : mth node l = apex node l := by
  induction l using mth.induct with
  | case1 => simp [mth, apex]
  | case2 a => simp [mth]
  | case3 a b rest ihl ihr =>
    obtain ⟨x, y, hx, hy, hxy⟩ := apex_split node (l := a :: b :: rest)
      (isSplit_splitPoint (n := rest.length + 2) (by omega))
    rw [mth, ihl, ihr, hx, hy, hxy]
    rfl

/-- The consistency path of the first `m` leaves, from the top. With `complete` the prefix is a
subtree the verifier already knows, and its apex is left out. The split of a single leaf does not
end the recursion for `m = 0`, which no caller asks for; it is refused here. -/
def subproof (m : ℕ) (l : List α) (complete : Bool) : Option (List α) :=
  if m = l.length then if complete then some [] else (mth node l).map ([·])
  else if l.length ≤ 1 then none
  else if m ≤ splitPoint l.length then
    (subproof m (l.take (splitPoint l.length)) complete).bind fun path ↦
      (mth node (l.drop (splitPoint l.length))).map fun right ↦ path ++ [right]
  else
    (subproof (m - splitPoint l.length) (l.drop (splitPoint l.length)) false).bind fun path ↦
      (mth node (l.take (splitPoint l.length))).map fun left ↦ path ++ [left]
termination_by l.length
decreasing_by
  · have h := (isSplit_splitPoint (n := l.length) (by omega)).lt
    simp only [List.length_take]
    omega
  · have h := (isSplit_splitPoint (n := l.length) (by omega)).pos
    simp only [List.length_drop]
    omega

/-- A number is a power of two. -/
def isPowerOfTwo (m : ℕ) : Bool := m == 2 ^ m.log2

theorem isPowerOfTwo_iff {m : ℕ} : isPowerOfTwo m = true ↔ ∃ j, m = 2 ^ j := by
  rw [isPowerOfTwo, beq_iff_eq]
  refine ⟨fun h ↦ ⟨_, h⟩, ?_⟩
  rintro ⟨j, rfl⟩
  rw [Nat.log2_two_pow]

section Subproof

variable {node} {l : List α} {m : ℕ}

/-- A prefix within the left part is a proper prefix of it, or all of a complete tree. -/
theorem IsSplit.lt_or_complete {k : ℕ} (h : IsSplit k l.length) (hle : m ≤ k) :
    m < (l.take k).length ∨ m = (l.take k).length ∧ isPowerOfTwo m := by
  have hlen : (l.take k).length = k := by
    rw [List.length_take]
    exact Nat.min_eq_left h.lt.le
  rcases Nat.lt_or_eq_of_le hle with hlt | rfl
  · exact Or.inl (by omega)
  · exact Or.inr ⟨hlen.symm, isPowerOfTwo_iff.mpr h.pow⟩

/-- Without the known apex, the path from the top is the path from the bottom. -/
theorem subproof_false (hm : 0 < m) (h : m < l.length ∨ m = l.length ∧ isPowerOfTwo m) :
    subproof node m l false = some (consistencyPath node l m) := by
  induction hn : l.length using Nat.strongRecOn generalizing l m with
  | ind n ih =>
    subst hn
    rcases h with hlt | ⟨rfl, hpow⟩
    · have hsplit : IsSplit (splitPoint l.length) l.length := isSplit_splitPoint (by omega)
      have hk := hsplit.lt
      have hpos := hsplit.pos
      obtain ⟨a, b, ha, hb, -⟩ := apex_split node hsplit
      rw [subproof, if_neg (by omega), if_neg (by omega)]
      -- the prefix ends on the right of the split, or on its left
      rcases Nat.lt_or_ge (splitPoint l.length) m with hgt | hle
      · rw [if_neg (by omega), mth_eq_apex, ha, consistencyPath_split_right hsplit hgt hlt, ha,
          ih _ (by rw [List.length_drop]; omega) (by omega)
            (Or.inl (by rw [List.length_drop]; omega)) rfl]
        rfl
      · have hlen : (l.take (splitPoint l.length)).length = splitPoint l.length := by
          rw [List.length_take]
          omega
        rw [if_pos hle, mth_eq_apex, hb, consistencyPath_split_left hsplit hm hle, hb,
          ih _ (by omega) hm (hsplit.lt_or_complete hle) rfl]
        rfl
    -- a complete tree is proved by its root
    · obtain ⟨j, hj⟩ := isPowerOfTwo_iff.mp hpow
      rw [subproof, if_pos rfl, mth_eq_apex, hj, consistencyPath_two_pow hj]
      obtain ⟨a, ha⟩ := Option.isSome_iff_exists.mp
        (isSome_apex node (List.ne_nil_of_length_pos hm))
      rw [ha]
      rfl

/-- With the known apex put in front, the path from the top is the path from the bottom. -/
theorem prefix_append_subproof (node : α → α → α) (hm : 0 < m)
    (h : m < l.length ∨ m = l.length ∧ isPowerOfTwo m) :
    ∃ path, subproof node m l true = some path ∧
      (if isPowerOfTwo m then (apex node (l.take m)).toList else []) ++ path =
        consistencyPath node l m := by
  induction hn : l.length using Nat.strongRecOn generalizing l m with
  | ind n ih =>
    subst hn
    rcases h with hlt | ⟨rfl, hpow⟩
    · have hsplit : IsSplit (splitPoint l.length) l.length := isSplit_splitPoint (by omega)
      have hk := hsplit.lt
      have hpos := hsplit.pos
      obtain ⟨a, b, ha, hb, -⟩ := apex_split node hsplit
      rw [subproof, if_neg (by omega), if_neg (by omega)]
      rcases Nat.lt_or_ge (splitPoint l.length) m with hgt | hle
      · -- past the split the prefix is no complete subtree, and nothing is known in advance
        have hnot : isPowerOfTwo m = false := by
          rw [Bool.eq_false_iff, ne_eq, isPowerOfTwo_iff]
          rintro ⟨j, hj⟩
          exact hsplit.ne_two_pow hgt hlt j hj
        rw [if_neg (by omega), mth_eq_apex, ha, hnot,
          subproof_false (by omega) (Or.inl (by rw [List.length_drop]; omega)),
          consistencyPath_split_right hsplit hgt hlt, ha]
        exact ⟨_, rfl, rfl⟩
      · have hlen : (l.take (splitPoint l.length)).length = splitPoint l.length := by
          rw [List.length_take]
          omega
        obtain ⟨path, hpath, heq⟩ := ih _ (by omega) hm (hsplit.lt_or_complete hle) rfl
        rw [List.take_take, Nat.min_eq_left hle] at heq
        rw [if_pos hle, mth_eq_apex, hb, hpath, consistencyPath_split_left hsplit hm hle, hb,
          ← heq]
        exact ⟨_, rfl, (List.append_assoc _ _ _).symm⟩
    · obtain ⟨j, hj⟩ := isPowerOfTwo_iff.mp hpow
      refine ⟨[], by rw [subproof, if_pos rfl, if_pos rfl], ?_⟩
      rw [if_pos hpow, List.append_nil, List.take_length, hj, consistencyPath_two_pow hj]

end Subproof

end Merkle
