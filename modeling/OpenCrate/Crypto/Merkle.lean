import OpenCrate.Crypto.Algorithms
import OpenCrate.Data.Bytes
import OpenCrate.Data.Except
import OpenCrate.Data.MachineInt
import OpenCrate.Data.MerkleSplit

/-!
# The integrity tree

`MerkleTree` of `oc-crypto`, over an arbitrary hash `blake3`. Internal nodes and roots are hashed
under different prefixes, and the exposed root binds the number of leaves, so that a proof cannot be
moved to a tree of another size.

A statement about a root always leaves one way out: a collision of `nodeOf` or `rootOf`. It is never
hidden behind an existence that any hash satisfies. `Hashed` lists the inputs that a computation
really passed to the two functions, and `Hashed.Collide` says that two computations passed
different inputs with the same output.
-/

namespace OpenCrate.Crypto

open Except (refuseIf)

/-- Compare two digests. -/
def digestEq (a b : Digest) : Bool := decide (a = b)

@[simp] theorem digestEq_eq_true_iff {a b : Digest} : digestEq a b = true ↔ a = b := by
  rw [digestEq, decide_eq_true_iff]

/-- Tree leaf. -/
structure Leaf where
  bytes : Digest
  deriving DecidableEq

section Tree

variable (blake3 : List UInt8 → Digest)

/-! ### Hashes -/

/-- Internal-node hash. -/
def nodeOf (left right : Digest) : Digest :=
  blake3 ([0x01] ++ utf8 "CC/v1/node" ++ left.toList ++ right.toList)

/-- Root hash: the apex bound to the leaf count, which is written big-endian. -/
def rootOf (leafCount : UInt32) (apex : Digest) : Digest :=
  blake3 ([0x02] ++ utf8 "CC/v1/node" ++ (toLeBytes leafCount).reverse ++ apex.toList)

/-- The inputs that a computation passed to `rootOf` and `nodeOf`. -/
structure Hashed where
  roots : List (UInt32 × Digest)
  nodes : List (Digest × Digest)

namespace Hashed

/-- Two computations hashed different inputs to the same output. -/
def Collide (a b : Hashed) : Prop :=
  Merkle.Collides (Function.uncurry (rootOf blake3)) a.roots b.roots ∨
    Merkle.Collides (Function.uncurry (nodeOf blake3)) a.nodes b.nodes

/-- A computation of one run and a computation of another hashed a collision. -/
def SomeCollide (as bs : List Hashed) : Prop := ∃ a ∈ as, ∃ b ∈ bs, a.Collide blake3 b

end Hashed

/-! ### The tree -/

/-- The entire tree: all levels, the leaves first. -/
structure MerkleTree where
  levels : List (List Digest)
  deriving DecidableEq

namespace MerkleTree

/-- Build a tree. The level above pairs neighbours and promotes an odd last node. -/
def build (leaves : List Leaf) : Except CryptoError MerkleTree := do
  refuseIf (leaves = []) .badLength
  refuseIf (2 ^ 32 ≤ leaves.length) .badLength
  .ok ⟨Merkle.levels (nodeOf blake3) (leaves.map Leaf.bytes)⟩

/-- Tree apex, without leaf-count binding. -/
def apex (t : MerkleTree) : Digest :=
  (t.levels.getLast?.bind List.head?).getD (List.Vector.replicate 32 0)

/-- Leaf count. -/
def leafCount (t : MerkleTree) : UInt32 :=
  let count := (t.levels.head?.map List.length).getD 0
  if count < 2 ^ 32 then UInt32.ofNat count else UInt32.ofNat (2 ^ 32 - 1)

/-- Root: apex bound to leaf count. -/
def root (t : MerkleTree) : Digest := rootOf blake3 t.leafCount t.apex

/-- Whether node `index` of a level of length `len` is promoted unchanged to the next level. -/
def isPromoted (len index : ℕ) : Bool := len % 2 == 1 && index + 1 == len

/-- The loop of `proof` over the levels. -/
def proofPath : List (List Digest) → ℕ → Except CryptoError (List Digest)
  | [], _ => .ok []
  | level :: above, position =>
    if level.length ≤ 1 then .ok []
    else if isPromoted level.length position then proofPath above (position / 2)
    else
      -- an even position is a left child
      match level[if position % 2 = 0 then position + 1 else position - 1]? with
      | none => .error .treeMismatch
      | some sibling => (proofPath above (position / 2)).map (sibling :: ·)

/-- Proof path for a leaf. -/
def proof (t : MerkleTree) (index : UInt32) : Except CryptoError (List Digest) :=
  if t.leafCount ≤ index then .error .indexOutOfRange else proofPath t.levels index.toNat

/-- The loop of `verifyProof`: the accumulator and the number of path nodes used, or a refusal when
the path is too short. -/
def verifyLoop (proof : List Digest) (len position : ℕ) (accumulator : Digest) (used : ℕ) :
    Option (Digest × ℕ) :=
  if 1 < len then
    if isPromoted len position then
      verifyLoop proof ((len + 1) / 2) (position / 2) accumulator used
    else
      match proof[used]? with
      | none => none
      | some sibling =>
        verifyLoop proof ((len + 1) / 2) (position / 2)
          (if position % 2 = 0 then nodeOf blake3 accumulator sibling
            else nodeOf blake3 sibling accumulator)
          (used + 1)
  else some (accumulator, used)
termination_by len

/-- Verify a proof without building the tree. -/
def verifyProof (root : Digest) (index leafCount : UInt32) (leaf : Leaf) (proof : List Digest) :
    Bool :=
  if leafCount = 0 ∨ leafCount ≤ index then false
  else
    match verifyLoop blake3 proof leafCount.toNat index.toNat leaf.bytes 0 with
    | none => false
    | some (accumulator, used) =>
      -- a path with nodes left over proves the same leaf in another form
      if used ≠ proof.length then false
      else digestEq (rootOf blake3 leafCount accumulator) root

/-! ### Consistency of two trees -/

/-- `MTH` over a leaf slice, split at the largest power of two below its length. -/
def mth (leaves : List Digest) : Option Digest := Merkle.mth (nodeOf blake3) leaves

/-- `SUBPROOF` over a leaf slice. `complete` means that the old tree is the current subtree. -/
def subproof (m : ℕ) (leaves : List Digest) (complete : Bool) : Option (List Digest) :=
  Merkle.subproof (nodeOf blake3) m leaves complete

/-- Prove that the first `oldCount` leaves are a prefix of this tree. The apex of a prefix of
two-power size, which is a complete subtree, comes first. -/
def consistency (t : MerkleTree) (oldCount : UInt32) : Except CryptoError (List Digest) :=
  match t.levels.head? with
  | none => .error .treeMismatch
  | some leaves =>
    if oldCount.toNat = 0 ∨ leaves.length < oldCount.toNat then .error .indexOutOfRange
    else if oldCount.toNat = leaves.length then .ok []
    else
      let known := if Merkle.isPowerOfTwo oldCount.toNat
        then (mth blake3 (leaves.take oldCount.toNat)).map ([·]) else some []
      match known with
      | none => .error .treeMismatch
      | some known =>
        match subproof blake3 oldCount.toNat leaves true with
        | none => .error .treeMismatch
        | some path => .ok (known ++ path)

/-- The loops of `verifyConsistency`: the common right edge is stripped, then every node of the
path enters one accumulator or both. The walk fails unless it ends with the last node of the new
tree at position zero. -/
def consistencyWalk (oldCount newCount : UInt32) (first : Digest) (rest : List Digest) :
    Option (Digest × Digest) :=
  let (fnode, snode) := Merkle.stripRight (oldCount.toNat - 1) (newCount.toNat - 1)
  Merkle.walk (nodeOf blake3) fnode snode first first rest

/-- Verify a consistency proof without the trees. -/
def verifyConsistency (oldCount : UInt32) (oldRoot : Digest) (newCount : UInt32)
    (newRoot : Digest) (proof : List Digest) : Bool :=
  if oldCount = 0 ∨ newCount < oldCount then false
  else if oldCount = newCount then proof.isEmpty && digestEq oldRoot newRoot
  else
    match proof with
    | [] => false
    | first :: rest =>
      match consistencyWalk blake3 oldCount newCount first rest with
      | none => false
      | some (oldAcc, newAcc) =>
        digestEq (rootOf blake3 oldCount oldAcc) oldRoot &&
          digestEq (rootOf blake3 newCount newAcc) newRoot

/-! ### What was built -/

variable {blake3} {leaves : List Leaf}

/-- A tree over at least one leaf is built, and its levels are those of the general tree. -/
theorem build_eq_ok (hne : leaves ≠ []) (hlen : leaves.length < 2 ^ 32) :
    build blake3 leaves = .ok ⟨Merkle.levels (nodeOf blake3) (leaves.map Leaf.bytes)⟩ := by
  rw [build, Except.refuseIf_of_not hne, Except.ok_bind, Except.refuseIf_of_not (by omega),
    Except.ok_bind]

theorem leafCount_levels (hlen : leaves.length < 2 ^ 32) :
    leafCount ⟨Merkle.levels (nodeOf blake3) (leaves.map Leaf.bytes)⟩ =
      UInt32.ofNat leaves.length := by
  simp only [leafCount, Merkle.head?_levels, Option.map_some, Option.getD_some, List.length_map,
    hlen, if_true]

/-- The apex of a built tree is the apex of its leaves. -/
theorem apex_levels (blake3 : List UInt8 → Digest) (hne : leaves ≠ []) :
    Merkle.apex (nodeOf blake3) (leaves.map Leaf.bytes) =
      some (apex ⟨Merkle.levels (nodeOf blake3) (leaves.map Leaf.bytes)⟩) := by
  obtain ⟨a, ha⟩ := Option.isSome_iff_exists.mp
    (Merkle.isSome_apex (nodeOf blake3) (l := leaves.map Leaf.bytes) (by simpa using hne))
  rw [apex, Merkle.getLast?_levels_head?, ha]
  rfl

/-! ### Proofs of inclusion -/

/-- The test for a node without a sibling is the general one. -/
theorem isPromoted_iff {len index : ℕ} :
    isPromoted len index = true ↔ Merkle.Promoted len index := by
  simp [isPromoted, Merkle.Promoted]

/-- The loop over the levels collects the siblings up to the apex. -/
theorem proofPath_levels {l : List Digest} {i : ℕ} (hi : i < l.length) :
    proofPath (Merkle.levels (nodeOf blake3) l) i = .ok (Merkle.auditPath (nodeOf blake3) l i) := by
  induction l using Merkle.apex.induct (nodeOf blake3) generalizing i with
  | case1 l hl ih =>
    have hup : i / 2 < (Merkle.pairUp (nodeOf blake3) l).length := by
      rw [Merkle.length_pairUp]
      omega
    rw [Merkle.levels, if_pos hl, proofPath, if_neg (by omega), Merkle.auditPath_step hi, ih hup]
    rcases Merkle.pairUp_cases (nodeOf blake3) hi with ⟨a, s, hp, -, hs, -, -⟩ | ⟨a, hp, -, hs, -⟩
    · rw [if_neg (by rwa [isPromoted_iff])]
      rw [Merkle.sibling] at hs ⊢
      rw [hs]
      rfl
    · rw [if_pos (isPromoted_iff.mpr hp), hs]
      rfl
  | case2 l hl =>
    rw [Merkle.levels, if_neg hl, proofPath, if_pos (by omega), Merkle.auditPath, if_neg hl]

/-- The loop of the verifier is a climb along what is left of the path. -/
theorem verifyLoop_eq_climb {proof : List Digest} {len position : ℕ} {acc : Digest} {used : ℕ}
    (hused : used ≤ proof.length) :
    verifyLoop blake3 proof len position acc used =
      (Merkle.climb (nodeOf blake3) len position acc (proof.drop used)).map
        fun r ↦ (r.1, proof.length - r.2.length) := by
  -- the cases of the loop: a promoted node, a path that is used up, a sibling, and the root
  induction len, position, acc, used using verifyLoop.induct blake3 proof with
  | case1 len position acc used hlen hp ih =>
    rw [verifyLoop.eq_def, if_pos hlen, if_pos hp, Merkle.climb.eq_def, if_pos hlen,
      if_pos (isPromoted_iff.mp hp), ih hused]
  | case2 len position acc used hlen hp hnone =>
    have hdrop : proof.drop used = [] := List.drop_of_length_le (List.getElem?_eq_none_iff.mp hnone)
    rw [verifyLoop.eq_def, if_pos hlen, if_neg hp, Merkle.climb.eq_def, if_pos hlen,
      if_neg (by rwa [isPromoted_iff] at hp), hnone, hdrop]
    rfl
  | case3 len position acc used hlen hp s hsome ih =>
    obtain ⟨hlt, hs⟩ := List.getElem?_eq_some_iff.mp hsome
    have hdrop : proof.drop used = s :: proof.drop (used + 1) := by
      rw [List.drop_eq_getElem_cons hlt, hs]
    have hside : (if position % 2 = 0 then nodeOf blake3 acc s else nodeOf blake3 s acc) =
        Function.uncurry (nodeOf blake3) (Merkle.orient position acc s) := by
      rw [Merkle.orient]
      split <;> rfl
    rw [verifyLoop.eq_def, if_pos hlen, if_neg hp, Merkle.climb.eq_def, if_pos hlen,
      if_neg (by rwa [isPromoted_iff] at hp), hsome, hdrop]
    simp only [dite_eq_ite] at ih
    show verifyLoop blake3 proof _ _ _ _ = _
    rw [ih hlt, hside]
  | case4 len position acc used hlen =>
    rw [verifyLoop.eq_def, if_neg hlen, Merkle.climb.eq_def, if_neg hlen, Option.map_some,
      List.length_drop, Nat.sub_sub_self hused]

/-- What an accepted proof says: the climb uses up the path and ends in an apex that the root
binds. -/
theorem verifyProof_eq_true_iff {root : Digest} {index count : UInt32} {leaf : Leaf}
    {proof : List Digest} :
    verifyProof blake3 root index count leaf proof = true ↔
      index < count ∧ ∃ top, rootOf blake3 count top = root ∧
        Merkle.climb (nodeOf blake3) count.toNat index.toNat leaf.bytes proof =
          some (top, []) := by
  rw [verifyProof, verifyLoop_eq_climb (Nat.zero_le _), List.drop_zero]
  rcases lt_or_ge index count with hlt | hge
  · have h0 : ¬(count = 0 ∨ count ≤ index) := by
      rintro (rfl | hle)
      · exact absurd hlt (by simp)
      · exact absurd hlt (not_lt.mpr hle)
    rw [if_neg h0]
    rcases hclimb : Merkle.climb (nodeOf blake3) count.toNat index.toNat leaf.bytes proof with
      - | ⟨top, rest⟩
    · simp
    · have hle : rest.length ≤ proof.length := (Merkle.climb_suffix hclimb).length_le
      simp only [Option.map_some, ne_eq, ite_not, hlt, true_and]
      rcases rest with - | ⟨x, rest⟩
      · simp
      · have hne : proof.length - (x :: rest).length ≠ proof.length := by
          rw [List.length_cons] at hle ⊢
          omega
        rw [if_neg hne]
        simp
  · simp [hge]

/-- What building a tree and taking its root hashes. -/
def hashedByBuild (blake3 : List UInt8 → Digest) (leaves : List Leaf) : Hashed where
  roots := ((Merkle.apex (nodeOf blake3) (leaves.map Leaf.bytes)).map
    fun apex ↦ (UInt32.ofNat leaves.length, apex)).toList
  nodes := Merkle.hashed (nodeOf blake3) (leaves.map Leaf.bytes)

/-- What verifying a proof hashes. -/
def hashedByProof (blake3 : List UInt8 → Digest) (index leafCount : UInt32) (leaf : Leaf)
    (proof : List Digest) : Hashed where
  roots := ((verifyLoop blake3 proof leafCount.toNat index.toNat leaf.bytes 0).map
    fun r ↦ (leafCount, r.1)).toList
  nodes := Merkle.climbed (nodeOf blake3) leafCount.toNat index.toNat leaf.bytes proof

/-- A proof of the tree is accepted. -/
theorem verifyProof_proofPath {i : UInt32} {leaf : Leaf} (hlen : leaves.length < 2 ^ 32)
    (hleaf : leaves[i.toNat]? = some leaf) {top : Digest}
    (htop : Merkle.apex (nodeOf blake3) (leaves.map Leaf.bytes) = some top) :
    verifyProof blake3 (rootOf blake3 (UInt32.ofNat leaves.length) top) i
      (UInt32.ofNat leaves.length) leaf
      (Merkle.auditPath (nodeOf blake3) (leaves.map Leaf.bytes) i.toNat) = true := by
  have hcount : (UInt32.ofNat leaves.length).toNat = (leaves.map Leaf.bytes).length := by
    rw [UInt32.toNat_ofNat_of_lt' hlen, List.length_map]
  have hget : (leaves.map Leaf.bytes)[i.toNat]? = some leaf.bytes := by
    rw [List.getElem?_map, hleaf]
    rfl
  obtain ⟨hi, -⟩ := List.getElem?_eq_some_iff.mp hget
  have hclimb := Merkle.climb_auditPath (nodeOf blake3) hget []
  rw [List.append_nil, htop] at hclimb
  refine verifyProof_eq_true_iff.mpr ⟨?_, top, rfl, ?_⟩
  · rw [UInt32.lt_iff_toNat_lt, hcount]
    exact hi
  · rw [hcount]
    exact hclimb

/-- An accepted proof is the tree's own, for one of its leaves, or it exhibits a collision. -/
theorem verifyProof_binding (hlen : leaves.length < 2 ^ 32) {top : Digest}
    (htop : Merkle.apex (nodeOf blake3) (leaves.map Leaf.bytes) = some top) {index count : UInt32}
    {leaf : Leaf} {proof : List Digest}
    (h : verifyProof blake3 (rootOf blake3 (UInt32.ofNat leaves.length) top) index count leaf
      proof = true) :
    (count = UInt32.ofNat leaves.length ∧ leaves[index.toNat]? = some leaf ∧
        proof = Merkle.auditPath (nodeOf blake3) (leaves.map Leaf.bytes) index.toNat) ∨
      (hashedByBuild blake3 leaves).Collide blake3
        (hashedByProof blake3 index count leaf proof) := by
  obtain ⟨hlt, top', hroot, hclimb⟩ := verifyProof_eq_true_iff.mp h
  have hmem : (UInt32.ofNat leaves.length, top) ∈ (hashedByBuild blake3 leaves).roots := by
    simp [hashedByBuild, htop]
  have hmem' : (count, top') ∈ (hashedByProof blake3 index count leaf proof).roots := by
    simp [hashedByProof, verifyLoop_eq_climb, hclimb]
  rcases Merkle.eq_or_collides (f := Function.uncurry (rootOf blake3)) hmem hmem' hroot.symm with
    heq | hcol
  · -- the root fixes the count and the apex, so the climb is one in the tree itself
    obtain ⟨rfl, rfl⟩ := Prod.mk.inj heq
    have hcount : (UInt32.ofNat leaves.length).toNat = (leaves.map Leaf.bytes).length := by
      rw [UInt32.toNat_ofNat_of_lt' hlen, List.length_map]
    have hi : index.toNat < (leaves.map Leaf.bytes).length := by
      rw [← hcount]
      exact UInt32.lt_iff_toNat_lt.mp hlt
    rw [hcount] at hclimb
    rcases Merkle.climb_sound hi htop hclimb with ⟨hget, hpath⟩ | hcol
    · rw [List.getElem?_map, Option.map_eq_some_iff] at hget
      obtain ⟨⟨bytes⟩, hget, rfl⟩ := hget
      exact Or.inl ⟨rfl, hget, by simpa using hpath⟩
    · refine Or.inr (Or.inr ?_)
      rw [hashedByProof, hcount]
      exact hcol
  · exact Or.inr (Or.inl hcol)

variable (blake3) in
/-- The proof of the tree over the leaves is their path. -/
theorem proof_levels {i : UInt32} (hlen : leaves.length < 2 ^ 32) (hi : i.toNat < leaves.length) :
    proof ⟨Merkle.levels (nodeOf blake3) (leaves.map Leaf.bytes)⟩ i =
      .ok (Merkle.auditPath (nodeOf blake3) (leaves.map Leaf.bytes) i.toNat) := by
  have hlt : ¬UInt32.ofNat leaves.length ≤ i := by
    rw [UInt32.le_iff_toNat_le, UInt32.toNat_ofNat_of_lt' hlen]
    omega
  rw [proof, leafCount_levels hlen, if_neg hlt, proofPath_levels (by rwa [List.length_map])]

variable (blake3) in
/-- **Inclusion is complete and binding.** Every leaf's own proof is accepted under the root of the
tree; and whatever is accepted under that root is the tree's own proof of one of its leaves, at its
size and position, unless a collision of `rootOf` or `nodeOf` is among the inputs hashed by the tree
and by the verifier. -/
theorem verifyProof_complete_and_binding (hne : leaves ≠ []) (hlen : leaves.length < 2 ^ 32) :
    ∃ t, build blake3 leaves = .ok t ∧
      (∀ (i : UInt32) (leaf : Leaf), leaves[i.toNat]? = some leaf →
        ∃ path, t.proof i = .ok path ∧
          verifyProof blake3 (t.root blake3) i (UInt32.ofNat leaves.length) leaf path = true) ∧
      ∀ (i' n' : UInt32) (leaf' : Leaf) (proof : List Digest),
        verifyProof blake3 (t.root blake3) i' n' leaf' proof = true →
          (n'.toNat = leaves.length ∧ i'.toNat < leaves.length ∧
              leaves[i'.toNat]? = some leaf' ∧ t.proof i' = .ok proof) ∨
            (hashedByBuild blake3 leaves).Collide blake3
              (hashedByProof blake3 i' n' leaf' proof) := by
  have htop := apex_levels blake3 hne
  refine ⟨_, build_eq_ok hne hlen, ?_, ?_⟩
  · intro i leaf hleaf
    obtain ⟨hi, -⟩ := List.getElem?_eq_some_iff.mp hleaf
    refine ⟨_, proof_levels blake3 hlen hi, ?_⟩
    rw [root, leafCount_levels hlen]
    exact verifyProof_proofPath hlen hleaf htop
  · intro i' n' leaf' proof h
    rw [root, leafCount_levels hlen] at h
    rcases verifyProof_binding hlen htop h with ⟨rfl, hleaf, rfl⟩ | hcol
    · obtain ⟨hi, -⟩ := List.getElem?_eq_some_iff.mp hleaf
      exact Or.inl ⟨UInt32.toNat_ofNat_of_lt' hlen, hi, hleaf, proof_levels blake3 hlen hi⟩
    · exact Or.inr hcol

/-- A list of two leaves. -/
def twoLeaves : List Leaf :=
  [⟨List.Vector.replicate 32 0⟩, ⟨List.Vector.replicate 32 1⟩]

/-- BLAKE3 on what is hashed over `twoLeaves`: their parent node, and the roots of one and of two
leaves. -/
def blake3OfTwoLeaves (input : List UInt8) : Digest :=
  if input[0]? = some 0x01 then
    ⟨[0x40, 0x66, 0x7c, 0xd4, 0x6a, 0x3d, 0xf6, 0x20, 0x60, 0x19, 0x9d, 0xdf, 0x3e, 0x86, 0xf3, 0x19,
      0x17, 0x4e, 0x06, 0x41, 0xa7, 0x94, 0x63, 0xba, 0x65, 0x2c, 0x5b, 0x63, 0xf2, 0x6f, 0x9c,
      0x94], rfl⟩
  else if input[14]? = some 2 then
    ⟨[0xb4, 0x9d, 0x37, 0x37, 0x26, 0x6a, 0xf1, 0x15, 0x8c, 0x33, 0xe0, 0xe9, 0x9b, 0x11, 0x11, 0xf8,
      0xbd, 0xf9, 0x3f, 0xef, 0x24, 0x72, 0x1f, 0x5a, 0xdb, 0x94, 0xf9, 0x16, 0x10, 0xe6, 0x1e,
      0x30], rfl⟩
  else
    ⟨[0x75, 0x5c, 0xc5, 0xd3, 0x7b, 0xb0, 0xa5, 0x5c, 0x47, 0x69, 0xe6, 0x80, 0x2a, 0x2a, 0xb7, 0x46,
      0xd2, 0xdf, 0x8b, 0xbe, 0x41, 0xaa, 0x14, 0x76, 0x63, 0x4c, 0x33, 0x8d, 0x16, 0x7d, 0x10,
      0xdd], rfl⟩

/-- The second of two leaves is accepted with its path, the first leaf. -/
theorem verifyProof_two_leaves :
    twoLeaves ≠ [] ∧ twoLeaves.length < 2 ^ 32 ∧
      ∃ t, build blake3OfTwoLeaves twoLeaves = .ok t ∧
        ∃ path, t.proof 1 = .ok path ∧
          verifyProof blake3OfTwoLeaves (t.root blake3OfTwoLeaves) 1 2
            ⟨List.Vector.replicate 32 1⟩ path = true := by
  obtain ⟨t, ht, hcomplete, -⟩ :=
    verifyProof_complete_and_binding blake3OfTwoLeaves (by decide : twoLeaves ≠ []) (by decide)
  exact ⟨by decide, by decide, t, ht, hcomplete 1 _ rfl⟩

end MerkleTree

end Tree

end OpenCrate.Crypto
