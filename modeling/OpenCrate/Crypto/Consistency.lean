import OpenCrate.Crypto.Merkle

/-!
# Consistency proofs of the integrity tree

The proof that a tree extends a smaller one is collected from the top (`consistency`) and checked
from the bottom with two counters and no tree at all (`verifyConsistency`). The two meet in the
bottom-up path of `OpenCrate.Data.MerkleConsistency`: what is collected is that path
(`consistency_levels`), and a walk along any path towards the new root rebuilds the old root from
the leaves of the new tree, or exhibits a collision (`verifyConsistency_sound`).
-/

namespace OpenCrate.Crypto.MerkleTree

variable {blake3 : List UInt8 → Digest} {leaves : List Leaf}

/-- What verifying a consistency proof hashes. -/
def hashedByConsistency (blake3 : List UInt8 → Digest) (oldCount newCount : UInt32)
    (proof : List Digest) : Hashed :=
  match proof with
  | [] => ⟨[], []⟩
  | first :: rest =>
    { roots := ((consistencyWalk blake3 oldCount newCount first rest).map
        fun r ↦ [(oldCount, r.1), (newCount, r.2)]).getD []
      nodes := Merkle.walked (nodeOf blake3)
        (Merkle.stripRight (oldCount.toNat - 1) (newCount.toNat - 1)).1
        (Merkle.stripRight (oldCount.toNat - 1) (newCount.toNat - 1)).2 first first rest }

/-- An accepted proof between two different sizes: its walk ends in the apexes of both roots. -/
theorem verifyConsistency_eq_true_iff {oldCount newCount : UInt32} {oldRoot newRoot : Digest}
    {proof : List Digest} (hne : oldCount ≠ newCount) :
    verifyConsistency blake3 oldCount oldRoot newCount newRoot proof = true ↔
      0 < oldCount ∧ oldCount < newCount ∧ ∃ first rest oldTop newTop, proof = first :: rest ∧
        consistencyWalk blake3 oldCount newCount first rest = some (oldTop, newTop) ∧
        rootOf blake3 oldCount oldTop = oldRoot ∧ rootOf blake3 newCount newTop = newRoot := by
  rw [verifyConsistency.eq_def]
  -- nothing is proved from an empty tree, or from a larger one
  by_cases hbad : oldCount = 0 ∨ newCount < oldCount
  · rw [if_pos hbad]
    refine iff_of_false Bool.false_ne_true ?_
    rintro ⟨hpos, hlt, -⟩
    rcases hbad with rfl | hgt
    · exact lt_irrefl 0 hpos
    · exact lt_asymm hlt hgt
  · have hpos : 0 < oldCount := UInt32.pos_iff_ne_zero.mpr fun h ↦ hbad (Or.inl h)
    have hlt : oldCount < newCount :=
      lt_of_le_of_ne (not_lt.mp fun h ↦ hbad (Or.inr h)) hne
    rw [if_neg hbad, if_neg hne]
    rcases proof with - | ⟨first, rest⟩
    · simp
    · rcases hwalk : consistencyWalk blake3 oldCount newCount first rest with
        - | ⟨oldTop, newTop⟩
      · simp [hwalk]
      · simp [hwalk, hpos, hlt]

/-- Two sizes are equal only with one root and an empty path. -/
theorem verifyConsistency_self {count : UInt32} {oldRoot newRoot : Digest} {proof : List Digest} :
    verifyConsistency blake3 count oldRoot count newRoot proof = true ↔
      0 < count ∧ proof = [] ∧ oldRoot = newRoot := by
  rw [verifyConsistency.eq_def]
  rcases eq_or_ne count 0 with rfl | hne
  · simp
  · simp [hne, UInt32.pos_iff_ne_zero]

/-- The first `m` leaves, built: the root over their apex. -/
theorem build_take (blake3 : List UInt8 → Digest) (hlen : leaves.length < 2 ^ 32) {m : ℕ}
    (hm : 0 < m) (hle : m ≤ leaves.length) :
    ∃ t top, build blake3 (leaves.take m) = .ok t ∧
      Merkle.apex (nodeOf blake3) ((leaves.map Leaf.bytes).take m) = some top ∧
      t.root blake3 = rootOf blake3 (UInt32.ofNat m) top := by
  have hlength : (leaves.take m).length = m := by
    rw [List.length_take, Nat.min_eq_left hle]
  have hne : leaves.take m ≠ [] := List.ne_nil_of_length_pos (by omega)
  have hlt : (leaves.take m).length < 2 ^ 32 := by omega
  have htop := apex_levels blake3 hne
  rw [List.map_take] at htop
  refine ⟨_, _, build_eq_ok hne hlt, htop, ?_⟩
  rw [root, leafCount_levels hlt, hlength, List.map_take]

/-! ### Soundness -/

/-- **An accepted old root is the root of a prefix**, or the verifier hashed an input that collides
with one of the new tree's. -/
theorem verifyConsistency_sound (hlen : leaves.length < 2 ^ 32) {top : Digest}
    (htop : Merkle.apex (nodeOf blake3) (leaves.map Leaf.bytes) = some top) {oldCount : UInt32}
    {oldRoot : Digest} {proof : List Digest}
    (h : verifyConsistency blake3 oldCount oldRoot (UInt32.ofNat leaves.length)
      (rootOf blake3 (UInt32.ofNat leaves.length) top) proof = true) :
    1 ≤ oldCount.toNat ∧ oldCount.toNat ≤ leaves.length ∧
      ((∃ t, build blake3 (leaves.take oldCount.toNat) = .ok t ∧ oldRoot = t.root blake3) ∨
        (hashedByBuild blake3 leaves).Collide blake3
          (hashedByConsistency blake3 oldCount (UInt32.ofNat leaves.length) proof)) := by
  have hcount : (UInt32.ofNat leaves.length).toNat = leaves.length :=
    UInt32.toNat_ofNat_of_lt' hlen
  rcases eq_or_ne oldCount (UInt32.ofNat leaves.length) with heq | hne
  · -- equal sizes: the same root, and the prefix is the whole list
    rw [heq] at h
    obtain ⟨hpos, -, hroot⟩ := verifyConsistency_self.mp h
    have hpos' : 0 < leaves.length := hcount ▸ UInt32.lt_iff_toNat_lt.mp hpos
    obtain ⟨t, top', ht, htop', hroot'⟩ := build_take blake3 hlen hpos' le_rfl
    rw [List.take_of_length_le (by rw [List.length_map]), htop] at htop'
    obtain rfl := Option.some_inj.mp htop'
    rw [heq, hcount]
    exact ⟨hpos', le_rfl, Or.inl ⟨t, ht, hroot.trans hroot'.symm⟩⟩
  · obtain ⟨hpos, hlt, first, rest, oldTop, newTop, rfl, hwalk, hold, hnew⟩ :=
      (verifyConsistency_eq_true_iff hne).mp h
    have hm : 0 < oldCount.toNat := UInt32.lt_iff_toNat_lt.mp hpos
    have hle : oldCount.toNat < leaves.length := hcount ▸ UInt32.lt_iff_toNat_lt.mp hlt
    refine ⟨hm, hle.le, ?_⟩
    obtain ⟨t, top', ht, htop', hroot'⟩ := build_take blake3 hlen hm hle.le
    -- the new root is the root of the tree, so the walk ends in its apex, or the roots collide
    have hmem : (UInt32.ofNat leaves.length, top) ∈ (hashedByBuild blake3 leaves).roots := by
      simp [hashedByBuild, htop]
    have hmem' : (UInt32.ofNat leaves.length, newTop) ∈
        (hashedByConsistency blake3 oldCount (UInt32.ofNat leaves.length) (first :: rest)).roots := by
      simp [hashedByConsistency, hwalk]
    rcases Merkle.eq_or_collides (f := Function.uncurry (rootOf blake3)) hmem hmem' hnew.symm with
      heq | hcol
    · obtain ⟨-, rfl⟩ := Prod.mk.inj heq
      obtain ⟨old, new, a, hal, ha, hb, hapexOld, hapexNew, hsub, -⟩ :=
        Merkle.exists_aligned_stripRight (nodeOf blake3) (l := leaves.map Leaf.bytes) hm
          (by rw [List.length_map]; exact hle.le)
      rw [List.length_map] at hal ha hb
      rw [consistencyWalk, hcount] at hwalk
      rcases Merkle.walk_sound hal (hapexNew.trans htop) hwalk with ⟨hfirst, hrebuild⟩ | hcol
      · -- the first node of the path is the shared end of both levels
        obtain rfl : a = first := Option.some_inj.mp (hb.symm.trans hfirst)
        have hprefix := hapexOld.symm.trans (hrebuild ha)
        rw [htop'] at hprefix
        obtain rfl := Option.some_inj.mp hprefix
        refine Or.inl ⟨t, ht, ?_⟩
        rw [← hold, hroot', UInt32.ofNat_toNat]
      · refine Or.inr (Or.inr ?_)
        rw [hashedByConsistency, hcount]
        exact hcol.mono hsub (List.Subset.refl _)
    · exact Or.inr (Or.inl hcol)

/-! ### Completeness -/

/-- The collected proof is the bottom-up path. -/
theorem consistency_levels {m : UInt32} (hm : 0 < m.toNat) (hlt : m.toNat < leaves.length) :
    consistency blake3 ⟨Merkle.levels (nodeOf blake3) (leaves.map Leaf.bytes)⟩ m =
      .ok (Merkle.consistencyPath (nodeOf blake3) (leaves.map Leaf.bytes) m.toNat) := by
  have hlt' : m.toNat < (leaves.map Leaf.bytes).length := by rwa [List.length_map]
  obtain ⟨path, hpath, heq⟩ :=
    Merkle.prefix_append_subproof (nodeOf blake3) hm (Or.inl hlt')
  have hnot : ¬(m.toNat = 0 ∨ (leaves.map Leaf.bytes).length < m.toNat) := by omega
  have hne : ¬m.toNat = (leaves.map Leaf.bytes).length := by omega
  simp only [consistency, Merkle.head?_levels, hnot, hne, if_false, subproof, hpath, mth,
    Merkle.mth_eq_apex]
  rcases hpow : Merkle.isPowerOfTwo m.toNat with - | -
  · rw [hpow] at heq
    exact congrArg Except.ok heq
  · obtain ⟨a, ha⟩ := Option.isSome_iff_exists.mp (Merkle.isSome_apex (nodeOf blake3)
      (l := (leaves.map Leaf.bytes).take m.toNat) (List.ne_nil_of_length_pos (by
        rw [List.length_take]
        omega)))
    rw [hpow, ha] at heq
    rw [ha]
    exact congrArg Except.ok heq

/-- A proof is never longer than a tree of `2 ^ 32` leaves is high, and one node. -/
theorem length_consistency_le (hlen : leaves.length < 2 ^ 32) {m : UInt32} (hm : 0 < m.toNat)
    (hlt : m.toNat < leaves.length) {t : MerkleTree} (ht : build blake3 leaves = .ok t)
    {path : List Digest} (h : t.consistency blake3 m = .ok path) : path.length ≤ 33 := by
  have hne : leaves ≠ [] := List.ne_nil_of_length_pos (by omega)
  obtain rfl := Except.ok.inj ((build_eq_ok hne hlen).symm.trans ht)
  obtain rfl := Except.ok.inj ((consistency_levels hm hlt).symm.trans h)
  refine Merkle.length_consistencyPath_le (nodeOf blake3) 32 m.toNat ?_
  rw [List.length_map]
  exact hlen.le

variable (blake3) in
/-- **Consistency proofs are complete.** Every tree proves every one of its prefixes. -/
theorem consistency_complete (hlen : leaves.length < 2 ^ 32) {m : UInt32} (hm : 1 ≤ m.toNat)
    (hle : m.toNat ≤ leaves.length) :
    ∃ t old path, build blake3 leaves = .ok t ∧
      build blake3 (leaves.take m.toNat) = .ok old ∧ t.consistency blake3 m = .ok path ∧
      verifyConsistency blake3 m (old.root blake3) (UInt32.ofNat leaves.length) (t.root blake3)
        path = true := by
  have hne : leaves ≠ [] := List.ne_nil_of_length_pos (by omega)
  have hcount : (UInt32.ofNat leaves.length).toNat = leaves.length :=
    UInt32.toNat_ofNat_of_lt' hlen
  have htop := apex_levels blake3 hne
  obtain ⟨old, oldTop, hbuild, holdTop, hroot⟩ := build_take blake3 hlen hm hle
  rcases Nat.lt_or_eq_of_le hle with hlt | heq
  · -- the collected path is the one that the walk from the two ends uses up
    refine ⟨_, old, _, build_eq_ok hne hlen, hbuild, consistency_levels hm hlt, ?_⟩
    have hlt' : m < UInt32.ofNat leaves.length := by
      rw [UInt32.lt_iff_toNat_lt, hcount]
      exact hlt
    obtain ⟨levelOld, levelNew, a, hal, ha, hb, hapexOld, hapexNew, -, hpath⟩ :=
      Merkle.exists_aligned_stripRight (nodeOf blake3) (l := leaves.map Leaf.bytes) hm
        (by rw [List.length_map]; exact hle)
    obtain ⟨top, newTop, htop', hnewTop, hwalk⟩ := Merkle.walk_auditPath hal ha hb
    rw [hapexOld, holdTop] at htop'
    rw [hapexNew, htop] at hnewTop
    obtain rfl := Option.some_inj.mp htop'
    obtain rfl := Option.some_inj.mp hnewTop
    rw [List.length_map] at hwalk hpath
    refine (verifyConsistency_eq_true_iff hlt'.ne).mpr ⟨UInt32.lt_iff_toNat_lt.mpr hm, hlt', a, _,
      oldTop, apex ⟨Merkle.levels (nodeOf blake3) (leaves.map Leaf.bytes)⟩, hpath, ?_, ?_, ?_⟩
    · rw [consistencyWalk, hcount]
      exact hwalk
    · rw [hroot, UInt32.ofNat_toNat]
    · rw [root, leafCount_levels hlen]
  · -- the whole tree is proved by the empty path
    obtain rfl : m = UInt32.ofNat leaves.length := by
      rw [← heq, UInt32.ofNat_toNat]
    have hempty : consistency blake3 ⟨Merkle.levels (nodeOf blake3) (leaves.map Leaf.bytes)⟩
        (UInt32.ofNat leaves.length) = .ok [] := by
      have hbad : ¬(leaves.length = 0 ∨ leaves.length < leaves.length) := by omega
      simp only [consistency, Merkle.head?_levels, hcount, List.length_map, hbad, if_false, if_true]
    refine ⟨_, old, [], build_eq_ok hne hlen, hbuild, hempty, ?_⟩
    refine verifyConsistency_self.mpr ⟨UInt32.lt_iff_toNat_lt.mpr hm, rfl, ?_⟩
    rw [hcount, List.take_of_length_le (by rw [List.length_map]), htop] at holdTop
    obtain rfl := Option.some_inj.mp holdTop
    rw [hroot, root, leafCount_levels hlen, hcount]

/-- Two leaves prove the first one. -/
theorem consistency_two_leaves :
    twoLeaves.length < 2 ^ 32 ∧ 1 ≤ (1 : UInt32).toNat ∧ (1 : UInt32).toNat ≤ twoLeaves.length ∧
      ∃ t old path, build blake3OfTwoLeaves twoLeaves = .ok t ∧
        build blake3OfTwoLeaves (twoLeaves.take 1) = .ok old ∧
        t.consistency blake3OfTwoLeaves 1 = .ok path ∧
        verifyConsistency blake3OfTwoLeaves 1 (old.root blake3OfTwoLeaves) 2
          (t.root blake3OfTwoLeaves) path = true :=
  ⟨by decide, by decide, by decide,
    consistency_complete blake3OfTwoLeaves (by decide : twoLeaves.length < 2 ^ 32)
      (by decide : 1 ≤ (1 : UInt32).toNat) (by decide)⟩

end OpenCrate.Crypto.MerkleTree
