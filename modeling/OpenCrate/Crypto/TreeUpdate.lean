import OpenCrate.Crypto.Merkle
import OpenCrate.Data.MerkleSplit

/-!
# Trees after an edit

`update_leaf` of `oc-crypto` replaces one leaf and recomputes the nodes above it, one on every level.
What it leaves behind is the tree that `build` makes of the edited leaves, with all its levels
(`updateLeaf_run`), so that proofs from an edited tree are proofs from a built one. The apex of a built
tree is the value of the recursive description (`apex_eq_mth`).
-/

namespace Merkle

variable {α : Type} {node : α → α → α} {l : List α}

/-- A replaced node changes the level above it in one place. -/
theorem pairUp_set {i : ℕ} (hi : i < l.length) {a p : α}
    (hp : (pairUp node (l.set i a))[i / 2]? = some p) :
    pairUp node (l.set i a) = (pairUp node l).set (i / 2) p := by
  induction l using pairUp.induct generalizing i with
  | case1 => cases hi
  | case2 b =>
    obtain rfl : i = 0 := Nat.lt_one_iff.mp hi
    simpa using hp
  | case3 b c rest ih =>
    rcases i with - | - | j
    · simpa using hp
    · simpa using hp
    · have hj : (j + 2) / 2 = j / 2 + 1 := Nat.add_div_right j (by decide)
      simp only [hj, List.set_cons_succ, pairUp_cons_cons, List.getElem?_cons_succ] at hp ⊢
      rw [ih (by simpa using hi) hp]

end Merkle

namespace OpenCrate.Crypto.MerkleTree

open Except (refuseIf)

section Update

variable (blake3 : List UInt8 → Digest)

/-- Value of the parent of node `index` at level `level`. A promoted node's parent equals itself. -/
def parentOf (level : List Digest) (index : ℕ) : Except CryptoError Digest :=
  if isPromoted level.length index then Except.okOr level[index]? .indexOutOfRange
  else do
    let leftIndex := index - index % 2
    let left ← Except.okOr level[leftIndex]? .indexOutOfRange
    let right ← Except.okOr level[leftIndex + 1]? .indexOutOfRange
    .ok (nodeOf blake3 left right)

/-- The loop of `updateLeaf`: one node on every level above `depth`. The levels are edited in place,
so what was written before a refusal stays. -/
def updateLoop (levels : List (List Digest)) (depth position : ℕ) :
    Except CryptoError Unit × List (List Digest) :=
  match _hlevel : levels[depth]? with
  | none => (.error .indexOutOfRange, levels)
  | some level =>
    if level.length ≤ 1 then (.ok (), levels)
    else
      match parentOf blake3 level position with
      | .error e => (.error e, levels)
      | .ok parent =>
        match levels[depth + 1]? with
        | none => (.error .treeMismatch, levels)
        | some upper =>
          if position / 2 < upper.length then
            updateLoop (levels.set (depth + 1) (upper.set (position / 2) parent)) (depth + 1) (position / 2)
          else (.error .treeMismatch, levels)
termination_by levels.length - depth
decreasing_by
  have := (List.getElem?_eq_some_iff.mp _hlevel).1
  rw [List.length_set]
  omega

/-- Replace a leaf and recompute the path to the root. The tree is edited in place; the result is the
new root. -/
def updateLeaf (t : MerkleTree) (index : UInt32) (leaf : Leaf) :
    Except CryptoError Digest × MerkleTree :=
  if t.leafCount ≤ index then (.error .indexOutOfRange, t)
  else
    match t.levels with
    | [] => (.error .indexOutOfRange, t)
    | bottom :: above =>
      if index.toNat < bottom.length then
        let (result, levels) := updateLoop blake3 (bottom.set index.toNat leaf.bytes :: above) 0 index.toNat
        (result.map fun () ↦ root blake3 ⟨levels⟩, ⟨levels⟩)
      else (.error .indexOutOfRange, t)

end Update

variable {blake3 : List UInt8 → Digest}

/-! ### One edit -/

/-- The parent is the node above. -/
theorem parentOf_eq_ok (blake3 : List UInt8 → Digest) {level : List Digest} {i : ℕ} (hi : i < level.length) :
    ∃ p, parentOf blake3 level i = .ok p ∧ (Merkle.pairUp (nodeOf blake3) level)[i / 2]? = some p := by
  rcases Merkle.pairUp_cases (nodeOf blake3) hi with ⟨a, s, hpair, ha, hs, hup, -⟩ | ⟨a, hpair, ha, -, hup⟩
  · refine ⟨_, ?_, hup⟩
    rw [parentOf, if_neg (by rwa [isPromoted_iff])]
    rw [Merkle.sibling] at hs
    rw [Merkle.orient]
    rcases Nat.mod_two_eq_zero_or_one i with heven | hodd
    · rw [if_pos heven] at hs ⊢
      simp [heven, ha, hs]
    · rw [if_neg (by omega)] at hs ⊢
      have hi' : i - 1 + 1 = i := by omega
      simp [hodd, hi', ha, hs]
  · refine ⟨a, ?_, hup⟩
    rw [parentOf, if_pos (isPromoted_iff.mpr hpair), ha]
    rfl

/-- The update stops at the root. -/
theorem updateLoop_of_top {levels : List (List Digest)} {depth position : ℕ} {level : List Digest}
    (hlevel : levels[depth]? = some level) (htop : level.length ≤ 1) :
    updateLoop blake3 levels depth position = (.ok (), levels) := by
  unfold updateLoop
  split
  · next hnone => rw [hnone] at hlevel; cases hlevel
  · next level' hlevel' =>
    obtain rfl := Option.some.inj (hlevel.symm.trans hlevel')
    rw [if_pos htop]

/-- Below the root it writes the parent, and goes on from there. -/
theorem updateLoop_of_parent {levels : List (List Digest)} {depth position : ℕ} {level upper : List Digest}
    {parent : Digest} (hlevel : levels[depth]? = some level) (hlen : 1 < level.length)
    (hparent : parentOf blake3 level position = .ok parent) (hupper : levels[depth + 1]? = some upper)
    (hlt : position / 2 < upper.length) :
    updateLoop blake3 levels depth position =
      updateLoop blake3 (levels.set (depth + 1) (upper.set (position / 2) parent)) (depth + 1)
        (position / 2) := by
  conv_lhs => unfold updateLoop
  split
  · next hnone => rw [hnone] at hlevel; cases hlevel
  · next level' hlevel' =>
    obtain rfl := Option.some.inj (hlevel.symm.trans hlevel')
    simp only [if_neg (not_le.mpr hlen), hparent, hupper, if_pos hlt]

theorem levels_eq_cons (l : List Digest) :
    Merkle.levels (nodeOf blake3) l = l :: (Merkle.levels (nodeOf blake3) l).tail :=
  (List.cons_head?_tail (Merkle.head?_levels (nodeOf blake3) l)).symm

/-- **The loop completes the levels above an edited one.** -/
theorem updateLoop_levels (blake3 : List UInt8 → Digest) {l : List Digest} {i : ℕ} (hi : i < l.length) (a : Digest)
    (below : List (List Digest)) :
    updateLoop blake3 (below ++ l.set i a :: (Merkle.levels (nodeOf blake3) l).tail) below.length i =
      (.ok (), below ++ Merkle.levels (nodeOf blake3) (l.set i a)) := by
  -- the level in the middle of a tree
  have hget : ∀ (below : List (List Digest)) (level : List Digest) (above : List (List Digest)),
      (below ++ level :: above)[below.length]? = some level := fun below level above ↦ by
    rw [List.getElem?_append_right le_rfl, Nat.sub_self, List.getElem?_cons_zero]
  induction l using Merkle.apex.induct (nodeOf blake3) generalizing i a below with
  | case1 l hl ih =>
    have hset : (l.set i a).length = l.length := List.length_set
    obtain ⟨p, hp, hup⟩ := parentOf_eq_ok blake3 (hi.trans_eq hset.symm)
    have hhalf : i / 2 < (Merkle.pairUp (nodeOf blake3) l).length := by
      rw [Merkle.length_pairUp]
      omega
    -- the level above is the old one but for the parent
    have htail : (Merkle.levels (nodeOf blake3) l).tail = Merkle.pairUp (nodeOf blake3) l ::
        (Merkle.levels (nodeOf blake3) (Merkle.pairUp (nodeOf blake3) l)).tail := by
      rw [Merkle.levels, if_pos hl, List.tail_cons]
      exact levels_eq_cons _
    have hassoc : ∀ above, below ++ l.set i a :: above = (below ++ [l.set i a]) ++ above :=
      fun above ↦ List.append_cons below _ above
    have hlength : (below ++ [l.set i a]).length = below.length + 1 := List.length_append
    have hupper := hget (below ++ [l.set i a]) (Merkle.pairUp (nodeOf blake3) l)
      (Merkle.levels (nodeOf blake3) (Merkle.pairUp (nodeOf blake3) l)).tail
    have hrest := ih hhalf p (below ++ [l.set i a])
    rw [← hassoc, hlength] at hupper
    rw [hlength] at hrest
    have hlevels : Merkle.levels (nodeOf blake3) (l.set i a) =
        l.set i a :: Merkle.levels (nodeOf blake3) ((Merkle.pairUp (nodeOf blake3) l).set (i / 2) p) := by
      rw [Merkle.levels, if_pos (hl.trans_eq hset.symm), Merkle.pairUp_set hi hup]
    rw [htail, updateLoop_of_parent (hget _ _ _) (hl.trans_eq hset.symm) hp hupper hhalf, hassoc,
      ← hlength, List.set_append_right _ _ le_rfl, Nat.sub_self, List.set_cons_zero, hlength, hrest,
      hlevels, ← hassoc]
  | case2 l hl =>
    have hset : (l.set i a).length = l.length := List.length_set
    rw [updateLoop_of_top (hget _ _ _) (by omega), Merkle.levels, if_neg hl, Merkle.levels,
      if_neg (by rwa [hset])]
    rfl

/-- The leaves after an edit. -/
def replaceLeaf (leaves : List Leaf) (edit : UInt32 × Leaf) : List Leaf :=
  if edit.1.toNat < leaves.length then leaves.set edit.1.toNat edit.2 else leaves

theorem length_replaceLeaf (leaves : List Leaf) (edit : UInt32 × Leaf) :
    (replaceLeaf leaves edit).length = leaves.length := by
  rw [replaceLeaf]
  split_ifs
  · exact List.length_set
  · rfl

theorem length_foldl_replaceLeaf (edits : List (UInt32 × Leaf)) (leaves : List Leaf) :
    (edits.foldl replaceLeaf leaves).length = leaves.length := by
  induction edits generalizing leaves with
  | nil => rfl
  | cons edit edits ih => rw [List.foldl_cons, ih, length_replaceLeaf]

/-- When a tree is built. -/
theorem build_eq_ok_iff {leaves : List Leaf} {t : MerkleTree} :
    build blake3 leaves = .ok t ↔ leaves ≠ [] ∧ leaves.length < 2 ^ 32 ∧
      t = ⟨Merkle.levels (nodeOf blake3) (leaves.map Leaf.bytes)⟩ := by
  simp only [build, Except.check_bind_eq_ok_iff, Except.refuseIf_eq_ok_iff, not_le, Except.ok.injEq,
    eq_comm (b := t)]

theorem leafCount_of_build {leaves : List Leaf} {t : MerkleTree} (h : build blake3 leaves = .ok t) :
    t.leafCount.toNat = leaves.length := by
  obtain ⟨-, hlen, rfl⟩ := build_eq_ok_iff.mp h
  rw [leafCount_levels hlen, UInt32.toNat_ofNat_of_lt' hlen]

/-- **One edit.** An edit of a built tree within its leaves leaves the tree of the edited leaves and
returns its root; another edit is refused and leaves the tree as it is. -/
theorem updateLeaf_of_build {leaves : List Leaf} {t : MerkleTree} (h : build blake3 leaves = .ok t)
    (index : UInt32) (leaf : Leaf) :
    (index < t.leafCount → ∃ t', build blake3 (leaves.set index.toNat leaf) = .ok t' ∧
        updateLeaf blake3 t index leaf = (.ok (t'.root blake3), t')) ∧
      (t.leafCount ≤ index → updateLeaf blake3 t index leaf = (.error .indexOutOfRange, t)) := by
  refine ⟨fun hlt ↦ ?_, fun hle ↦ by rw [updateLeaf, if_pos hle]⟩
  have hcount := leafCount_of_build h
  obtain ⟨hne, hlen, rfl⟩ := build_eq_ok_iff.mp h
  have hindex : index.toNat < (leaves.map Leaf.bytes).length := by
    rw [List.length_map, ← hcount]
    exact UInt32.lt_iff_toNat_lt.mp hlt
  refine ⟨_, build_eq_ok_iff.mpr ⟨?_, by rwa [List.length_set], rfl⟩, ?_⟩
  · rw [ne_eq, ← List.length_eq_zero_iff, List.length_set, List.length_eq_zero_iff]
    exact hne
  · have hloop := updateLoop_levels blake3 hindex leaf.bytes []
    rw [List.nil_append, List.length_nil, List.nil_append] at hloop
    rw [updateLeaf, if_neg (UInt32.not_le.mpr hlt)]
    simp only
    rw [levels_eq_cons]
    simp only [if_pos hindex]
    rw [hloop, List.map_set]
    rfl

/-! ### Runs of edits -/

/-- The tree after a sequence of calls, successful or not. -/
def updateRun (blake3 : List UInt8 → Digest) (t : MerkleTree) (edits : List (UInt32 × Leaf)) : MerkleTree :=
  edits.foldl (fun t edit ↦ (updateLeaf blake3 t edit.1 edit.2).2) t

/-- **A run leaves the tree of the edited leaves.** -/
theorem build_updateRun {leaves : List Leaf} {t : MerkleTree} (h : build blake3 leaves = .ok t)
    (edits : List (UInt32 × Leaf)) :
    build blake3 (edits.foldl replaceLeaf leaves) = .ok (updateRun blake3 t edits) := by
  induction edits generalizing leaves t with
  | nil => exact h
  | cons edit edits ih =>
    obtain ⟨hok, hrefused⟩ := updateLeaf_of_build h edit.1 edit.2
    have hcount := leafCount_of_build h
    refine ih (t := (updateLeaf blake3 t edit.1 edit.2).2) ?_
    -- an update past the end is refused, and changes nothing on either side
    rcases lt_or_ge edit.1 t.leafCount with hlt | hle
    · obtain ⟨t', ht', hupdate⟩ := hok hlt
      have hlt' := UInt32.lt_iff_toNat_lt.mp hlt
      rw [hcount] at hlt'
      rw [hupdate, replaceLeaf, if_pos hlt', ht']
    · have hle' := UInt32.le_iff_toNat_le.mp hle
      rw [hcount] at hle'
      rw [hrefused hle, replaceLeaf, if_neg (not_lt.mpr hle'), h]

/-- **Incremental edits equal a rebuild.** After any calls the tree, with all its levels, is the one
that `build` makes of the leaves with the successful replacements applied. A further call within the
leaves succeeds and returns the root of that tree; any other call is refused and changes nothing. -/
theorem updateLeaf_run (blake3 : List UInt8 → Digest) (leaves : List Leaf) (t : MerkleTree)
    (h : build blake3 leaves = .ok t) (edits : List (UInt32 × Leaf)) :
    build blake3 (edits.foldl replaceLeaf leaves) = .ok (updateRun blake3 t edits) ∧
      (updateRun blake3 t edits).leafCount = t.leafCount ∧
      ∀ (index : UInt32) (leaf : Leaf),
        (index < t.leafCount →
          ∃ t', build blake3 ((edits.foldl replaceLeaf leaves).set index.toNat leaf) = .ok t' ∧
            updateLeaf blake3 (updateRun blake3 t edits) index leaf = (.ok (t'.root blake3), t')) ∧
        (t.leafCount ≤ index → updateLeaf blake3 (updateRun blake3 t edits) index leaf =
          (.error .indexOutOfRange, updateRun blake3 t edits)) := by
  have hrun := build_updateRun h edits
  have hcount : (updateRun blake3 t edits).leafCount = t.leafCount := by
    rw [← UInt32.toNat_inj, leafCount_of_build hrun, leafCount_of_build h, length_foldl_replaceLeaf]
  refine ⟨hrun, hcount, ?_⟩
  rw [← hcount]
  exact updateLeaf_of_build hrun

/-- The second of two leaves is replaced by itself, after a call beyond the leaves. -/
theorem updateLeaf_run_two_leaves :
    ∃ t, build blake3OfTwoLeaves twoLeaves = .ok t ∧
      build blake3OfTwoLeaves ([(5, ⟨List.Vector.replicate 32 7⟩), (1, ⟨List.Vector.replicate 32 1⟩)].foldl
        replaceLeaf twoLeaves) = .ok (updateRun blake3OfTwoLeaves t
          [(5, ⟨List.Vector.replicate 32 7⟩), (1, ⟨List.Vector.replicate 32 1⟩)]) :=
  have hbuild : build blake3OfTwoLeaves twoLeaves = .ok _ := build_eq_ok (by decide) (by decide)
  ⟨_, hbuild, (updateLeaf_run blake3OfTwoLeaves twoLeaves _ hbuild _).1⟩

/-! ### The recursive description -/

/-- **The tree is that of the recursive description.** The levels are built by pairing neighbours, and
`mth` splits at the largest power of two below the length; the apex is the same for every list of leaves.
Only the empty list and lists too long for an index are refused. -/
theorem apex_eq_mth (blake3 : List UInt8 → Digest) (leaves : List Leaf) :
    (∀ t, build blake3 leaves = .ok t → mth blake3 (leaves.map Leaf.bytes) = some t.apex) ∧
      ((∃ t, build blake3 leaves = .ok t) ↔ leaves ≠ [] ∧ leaves.length < 2 ^ 32) ∧
      ∀ n, 1 < n → Merkle.IsSplit (Merkle.splitPoint n) n := by
  refine ⟨fun t h ↦ ?_, ⟨fun ⟨t, h⟩ ↦ ?_, fun ⟨hne, hlen⟩ ↦ ⟨_, build_eq_ok hne hlen⟩⟩,
    fun n hn ↦ Merkle.isSplit_splitPoint hn⟩
  · obtain ⟨hne, -, rfl⟩ := build_eq_ok_iff.mp h
    rw [mth, Merkle.mth_eq_apex, apex_levels blake3 hne]
  · obtain ⟨hne, hlen, -⟩ := build_eq_ok_iff.mp h
    exact ⟨hne, hlen⟩

end OpenCrate.Crypto.MerkleTree
