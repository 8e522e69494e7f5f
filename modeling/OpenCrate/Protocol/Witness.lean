import OpenCrate.Crypto.Consistency
import OpenCrate.Crypto.Sign
import OpenCrate.Format.Tlv

/-!
# Witnessed heads

A witness keeps the last head of a journal it has seen and relates every new one to it by a
consistency proof (`relate`). A run of a witness is a list of shown heads, each with the path from
the head before it (`Accepted`).

The journal cannot rewrite its past: if the last head of an accepted run is the root over some
leaves, then every earlier head is the root over the first of these leaves, as many as the head
counts; or the run and the trees of these prefixes have hashed a collision.
-/

namespace OpenCrate.Protocol

open OpenCrate.Crypto OpenCrate.Format
open Except (refuseIf okOr)

/-! ### Heads and their signatures -/

/-- The journals whose heads are signed: events, and keys. -/
inductive Log where
  | journal
  | directory
  deriving DecidableEq

namespace Log

/-- The kind byte. -/
def toU8 : Log → UInt8
  | journal => 1
  | directory => 2

/-- Head signature label for this journal. -/
def headLabel : Log → Label
  | journal => .auditHead
  | directory => .directoryHead

end Log

/-- Journal head signature transcript. -/
def headTranscript (log : Log) (size : UInt64) (root : Digest) : Transcript :=
  ((Transcript.new log.headLabel).u64be size).fixed root.toList

/-- What a witness signs: the head, the journal, the server, and when the witness saw it. -/
def cosignTranscript (log : Log) (serverKey : Digest) (size : UInt64) (root : Digest) (at_ : Int64) :
    Transcript :=
  ((((Transcript.new .witnessCosign).u8 log.toU8).fixed serverKey.toList).u64be size).fixed root.toList
    |>.fixed (toBeBytes at_)

/-- Length of a signed head. -/
def signedHeadLen : ℕ := 8 + 32 + Crypto.signatureLen

/-- Journal head with server signature. -/
structure SignedHead where
  size : UInt64
  root : Digest
  sig : Signature
  deriving DecidableEq

namespace SignedHead

/-- Head bytes. -/
def encode (head : SignedHead) : List UInt8 :=
  toLeBytes head.size ++ head.root.toList ++ head.sig.toList

/-- Parse a head of the exact length. -/
def decode (bytes : List UInt8) : Except FormatError SignedHead := do
  refuseIf (bytes.length ≠ signedHeadLen) (.badFieldLength 0 bytes.length)
  let (size, rest) := bytes.splitAt 8
  let (root, sig) := rest.splitAt 32
  let size ← okOr (ofLeBytes? size) (.badFieldLength 0 bytes.length)
  let root ← okOr (toVector? 32 root) (.badFieldLength 0 bytes.length)
  let sig ← okOr (toVector? Crypto.signatureLen sig) (.badFieldLength 0 bytes.length)
  .ok ⟨size, root, sig⟩

/-- Whether this server signed the head of this journal. -/
def signedBy (ed : Ed25519) (head : SignedHead) (log : Log) (serverKey : Digest) : Bool :=
  (verify ed serverKey (headTranscript log head.size head.root) head.sig).isOk

/-- A signed head has a fixed length. -/
theorem length_encode (head : SignedHead) : head.encode.length = signedHeadLen := by
  simp only [encode, List.length_append, length_toLeBytes, List.Vector.toList_length]
  rfl

/-- **A head has one spelling**: what was written is read back, and nothing else is. -/
theorem decode_eq_ok_iff {bytes : List UInt8} {head : SignedHead} :
    decode bytes = .ok head ↔ bytes = head.encode := by
  simp only [decode, List.splitAt_eq, Except.bind_eq_ok_iff,
    Except.refuseIf_eq_ok_iff, Except.okOr_eq_ok_iff, ofLeBytes?_eq_some_iff, toVector?_eq_some_iff,
    Except.ok.injEq, not_not]
  constructor
  · rintro ⟨⟨⟩, -, size, hsize, root, hroot, sig, hsig, rfl⟩
    rw [encode, ← hsize, ← hroot, ← hsig, List.append_assoc, List.take_append_drop,
      List.take_append_drop]
  · rintro rfl
    have hsize : (toLeBytes head.size).length = 8 := length_toLeBytes _
    have hdrop : head.encode.drop 8 = head.root.toList ++ head.sig.toList := by
      rw [encode, List.append_assoc, List.drop_left' hsize]
    refine ⟨(), head.length_encode, head.size, ?_, head.root, ?_, head.sig, ?_, rfl⟩
    · rw [encode, List.append_assoc, List.take_left' hsize]
    · rw [hdrop, List.take_left' head.root.toList_length]
    · rw [hdrop, List.drop_left' head.root.toList_length]

end SignedHead

/-! ### Relations of heads -/

/-- How a new head relates to the old one. -/
inductive Relation where
  | same
  | extends
  | rollback
  | fork
  | unprovable
  deriving DecidableEq, Repr

/-- A number of the tree's own width. -/
def toUInt32? (n : UInt64) : Option UInt32 :=
  if n.toNat < 2 ^ 32 then some (UInt32.ofNat n.toNat) else none

/-- Compare the new head with the old one using a consistency proof. -/
def relate (blake3 : List UInt8 → Digest) (oldSize : UInt64) (oldRoot : Digest) (newSize : UInt64)
    (newRoot : Digest) (path : List Digest) : Relation :=
  if newSize < oldSize then .rollback
  else if newSize = oldSize then
    if Crypto.digestEq oldRoot newRoot && path.isEmpty then .same else .fork
  else
    match toUInt32? oldSize, toUInt32? newSize with
    | some old, some new =>
      if MerkleTree.verifyConsistency blake3 old oldRoot new newRoot path then .extends else .fork
    | _, _ => .unprovable

/-- Size and root of a journal. -/
structure Head where
  size : UInt64
  root : Digest
  deriving DecidableEq

/-- A head as it is shown: with the path from the head before it. -/
structure Shown where
  head : Head
  path : List Digest

variable (blake3 : List UInt8 → Digest)

/-- Every shown head is the same as the one before it, or extends it. -/
def Accepted : Head → List Shown → Prop
  | _, [] => True
  | old, shown :: rest =>
    (relate blake3 old.size old.root shown.head.size shown.head.root shown.path = .same ∨
      relate blake3 old.size old.root shown.head.size shown.head.root shown.path = .extends) ∧
    Accepted shown.head rest

/-- The head a run ends with. -/
def lastHead : Head → List Shown → Head
  | first, [] => first
  | _, shown :: rest => lastHead shown.head rest

/-- What the witness hashes to relate two heads. -/
def hashedByRelate (old : Head) (shown : Shown) : Hashed :=
  MerkleTree.hashedByConsistency blake3 (UInt32.ofNat old.size.toNat)
    (UInt32.ofNat shown.head.size.toNat) shown.path

/-- What the witness hashes in a run, relation by relation. -/
def hashedByRun : Head → List Shown → List Hashed
  | _, [] => []
  | old, shown :: rest => hashedByRelate blake3 old shown :: hashedByRun shown.head rest

/-- What is hashed by building every prefix of the leaves. -/
def hashedByPrefixes (leaves : List Leaf) : List Hashed :=
  (List.range (leaves.length + 1)).map fun k ↦ MerkleTree.hashedByBuild blake3 (leaves.take k)

/-- A head counts some of the leaves and has the root over them. -/
def Head.IsPrefix (head : Head) (leaves : List Leaf) : Prop :=
  1 ≤ head.size.toNat ∧ head.size.toNat ≤ leaves.length ∧
    ∃ t, MerkleTree.build blake3 (leaves.take head.size.toNat) = .ok t ∧ head.root = t.root blake3

variable {blake3}

/-- The two ways to accept a head. -/
theorem relate_cases {oldSize newSize : UInt64} {oldRoot newRoot : Digest} {path : List Digest}
    (h : relate blake3 oldSize oldRoot newSize newRoot path = .same ∨
      relate blake3 oldSize oldRoot newSize newRoot path = .extends) :
    (newSize = oldSize ∧ oldRoot = newRoot) ∨
      (oldSize.toNat < 2 ^ 32 ∧ MerkleTree.verifyConsistency blake3 (UInt32.ofNat oldSize.toNat)
        oldRoot (UInt32.ofNat newSize.toNat) newRoot path = true) := by
  unfold relate at h
  split at h
  · simp at h
  split at h
  · next heq =>
    split at h
    · next hsame =>
      rw [Bool.and_eq_true, digestEq_eq_true_iff] at hsame
      exact Or.inl ⟨heq, hsame.1⟩
    · simp at h
  · rw [toUInt32?, toUInt32?] at h
    split_ifs at h with hold hnew
    · rcases hv : MerkleTree.verifyConsistency blake3 (UInt32.ofNat oldSize.toNat) oldRoot
        (UInt32.ofNat newSize.toNat) newRoot path with - | -
      · simp only [hv, Bool.false_eq_true, if_false] at h
        simp at h
      · exact Or.inr ⟨hold, rfl⟩
    all_goals simp at h

/-- **One step back.** If the new head is a prefix of the leaves, so is the old one. -/
theorem Head.IsPrefix.of_relate {leaves : List Leaf} (hlen : leaves.length < 2 ^ 32) {old : Head}
    {shown : Shown} (hnew : shown.head.IsPrefix blake3 leaves)
    (h : relate blake3 old.size old.root shown.head.size shown.head.root shown.path = .same ∨
      relate blake3 old.size old.root shown.head.size shown.head.root shown.path = .extends) :
    old.IsPrefix blake3 leaves ∨
      (MerkleTree.hashedByBuild blake3 (leaves.take shown.head.size.toNat)).Collide blake3
        (hashedByRelate blake3 old shown) := by
  obtain ⟨hpos, hle, t, ht, hroot⟩ := hnew
  rcases relate_cases h with ⟨hsize, hsame⟩ | ⟨hold, hverify⟩
  · refine Or.inl ?_
    rw [Head.IsPrefix, ← hsize, hsame]
    exact ⟨hpos, hle, t, ht, hroot⟩
  · -- the new head is a tree over a prefix, so its proof speaks about a prefix of that prefix
    have hlength : (leaves.take shown.head.size.toNat).length = shown.head.size.toNat := by
      rw [List.length_take, Nat.min_eq_left hle]
    obtain ⟨t', top, ht', htop, hroot'⟩ := MerkleTree.build_take blake3 hlen hpos hle
    obtain rfl : t' = t := Except.ok.inj (ht'.symm.trans ht)
    rw [hroot, hroot', ← hlength] at hverify
    obtain ⟨hpos', hle', hprefix⟩ :=
      MerkleTree.verifyConsistency_sound (by omega) (List.map_take ▸ htop) hverify
    rw [UInt32.toNat_ofNat_of_lt' hold] at hpos' hle' hprefix
    rcases hprefix with ⟨s, hs, hsroot⟩ | hcol
    · rw [List.take_take, Nat.min_eq_left (hlength ▸ hle')] at hs
      exact Or.inl ⟨hpos', by omega, s, hs, hsroot⟩
    · refine Or.inr ?_
      rw [hlength] at hcol
      exact hcol

/-- **A whole run back.** If the last head is a prefix of the leaves, so is every head. -/
theorem Accepted.isPrefix {leaves : List Leaf} (hlen : leaves.length < 2 ^ 32) {first : Head}
    {run : List Shown} (hrun : Accepted blake3 first run)
    (hlast : (lastHead first run).IsPrefix blake3 leaves) :
    (∀ head ∈ first :: run.map Shown.head, head.IsPrefix blake3 leaves) ∨
      Hashed.SomeCollide blake3 (hashedByPrefixes blake3 leaves)
        (hashedByRun blake3 first run) := by
  induction run generalizing first with
  | nil => exact Or.inl fun head hmem ↦ List.mem_singleton.mp hmem ▸ hlast
  | cons shown rest ih =>
    obtain ⟨hstep, hrest⟩ := hrun
    rcases ih hrest hlast with hall | hcol
    · have hnew : shown.head.IsPrefix blake3 leaves := hall _ List.mem_cons_self
      rcases hnew.of_relate hlen hstep with hold | hcol
      · refine Or.inl fun head hmem ↦ ?_
        rcases List.mem_cons.mp hmem with rfl | hmem
        · exact hold
        · exact hall head hmem
      · -- the collision is with the tree of the prefix that the new head counts
        have hbuild : MerkleTree.hashedByBuild blake3 (leaves.take shown.head.size.toNat) ∈
            hashedByPrefixes blake3 leaves :=
          List.mem_map.mpr ⟨_, List.mem_range.mpr (Nat.lt_succ_of_le hnew.2.1), rfl⟩
        exact Or.inr ⟨_, hbuild, _, List.mem_cons_self, hcol⟩
    · obtain ⟨a, ha, b, hb, hcol⟩ := hcol
      exact Or.inr ⟨a, ha, b, List.mem_cons_of_mem _ hb, hcol⟩

/-- **A witnessed journal keeps its past.** A consistency proof accepted under the root of a tree
proves a prefix of its leaves; and every head of an accepted run that ends with the tree is a prefix
of its leaves. The way out is a collision between what the trees of the prefixes hash and what the
verifier hashes. -/
theorem witnessed_journal_keeps_its_past (blake3 : List UInt8 → Digest) {leaves : List Leaf}
    (hpos : 1 ≤ leaves.length) (hlen : leaves.length < 2 ^ 32) :
    ∃ t, MerkleTree.build blake3 leaves = .ok t ∧
      (∀ (m : UInt32) (oldRoot : Digest) (proof : List Digest),
        MerkleTree.verifyConsistency blake3 m oldRoot (UInt32.ofNat leaves.length) (t.root blake3)
            proof = true →
          1 ≤ m.toNat ∧ m.toNat ≤ leaves.length ∧
            ((∃ old, MerkleTree.build blake3 (leaves.take m.toNat) = .ok old ∧
                oldRoot = old.root blake3) ∨
              (MerkleTree.hashedByBuild blake3 leaves).Collide blake3
                (MerkleTree.hashedByConsistency blake3 m (UInt32.ofNat leaves.length) proof))) ∧
      ∀ (first : Head) (run : List Shown), Accepted blake3 first run →
        lastHead first run = ⟨UInt64.ofNat leaves.length, t.root blake3⟩ →
          (∀ head ∈ first :: run.map Shown.head,
            1 ≤ head.size.toNat ∧ head.size.toNat ≤ leaves.length ∧
              ∃ old, MerkleTree.build blake3 (leaves.take head.size.toNat) = .ok old ∧
                head.root = old.root blake3) ∨
            Hashed.SomeCollide blake3 (hashedByPrefixes blake3 leaves)
              (hashedByRun blake3 first run) := by
  have hne : leaves ≠ [] := List.ne_nil_of_length_pos hpos
  refine ⟨_, MerkleTree.build_eq_ok hne hlen, ?_, ?_⟩
  · intro m oldRoot proof h
    rw [MerkleTree.root, MerkleTree.leafCount_levels hlen] at h
    exact MerkleTree.verifyConsistency_sound hlen (MerkleTree.apex_levels blake3 hne) h
  · intro first run hrun hlast
    -- the last head is a prefix of the journal, the whole of it
    have hsize : (UInt64.ofNat leaves.length).toNat = leaves.length :=
      UInt64.toNat_ofNat_of_lt' (hlen.trans (by decide))
    refine hrun.isPrefix hlen ?_
    rw [hlast, Head.IsPrefix, hsize, List.take_of_length_le le_rfl]
    exact ⟨hpos, le_rfl, _, MerkleTree.build_eq_ok hne hlen, rfl⟩

/-- The head over the first of two leaves. -/
def headOfOne : Head :=
  ⟨1, rootOf MerkleTree.blake3OfTwoLeaves 1 (List.Vector.replicate 32 0)⟩

/-- The head over two leaves, shown to a witness that knows the head over the first. -/
def shownOfTwo : Shown where
  head := ⟨2, rootOf MerkleTree.blake3OfTwoLeaves 2
    (nodeOf MerkleTree.blake3OfTwoLeaves (List.Vector.replicate 32 0) (List.Vector.replicate 32 1))⟩
  path := [List.Vector.replicate 32 0, List.Vector.replicate 32 1]

/-- An accepted run of two heads that ends with the tree over two leaves. -/
theorem witnessed_two_heads :
    1 ≤ MerkleTree.twoLeaves.length ∧ MerkleTree.twoLeaves.length < 2 ^ 32 ∧
      Accepted MerkleTree.blake3OfTwoLeaves headOfOne [shownOfTwo] ∧
      ∃ t, MerkleTree.build MerkleTree.blake3OfTwoLeaves MerkleTree.twoLeaves = .ok t ∧
        lastHead headOfOne [shownOfTwo] = ⟨2, t.root MerkleTree.blake3OfTwoLeaves⟩ ∧
        ((∀ head ∈ headOfOne :: [shownOfTwo].map Shown.head,
            1 ≤ head.size.toNat ∧ head.size.toNat ≤ 2 ∧
              ∃ old, MerkleTree.build MerkleTree.blake3OfTwoLeaves
                  (MerkleTree.twoLeaves.take head.size.toNat) = .ok old ∧
                head.root = old.root MerkleTree.blake3OfTwoLeaves) ∨
          Hashed.SomeCollide MerkleTree.blake3OfTwoLeaves
            (hashedByPrefixes MerkleTree.blake3OfTwoLeaves MerkleTree.twoLeaves)
            (hashedByRun MerkleTree.blake3OfTwoLeaves headOfOne [shownOfTwo])) := by
  have hrun : Accepted MerkleTree.blake3OfTwoLeaves headOfOne [shownOfTwo] :=
    ⟨Or.inr (by decide +kernel), trivial⟩
  obtain ⟨t, ht, -, hruns⟩ := witnessed_journal_keeps_its_past MerkleTree.blake3OfTwoLeaves
    (by decide : 1 ≤ MerkleTree.twoLeaves.length) (by decide)
  have hlast : lastHead headOfOne [shownOfTwo] = ⟨2, t.root MerkleTree.blake3OfTwoLeaves⟩ := by
    have hroot : (MerkleTree.build MerkleTree.blake3OfTwoLeaves MerkleTree.twoLeaves).map
        (MerkleTree.root MerkleTree.blake3OfTwoLeaves) = .ok shownOfTwo.head.root := by
      decide +kernel
    rw [ht] at hroot
    exact congrArg (Head.mk 2) (Except.ok.inj hroot).symm
  exact ⟨by decide, by decide, hrun, t, ht, hlast, hruns headOfOne [shownOfTwo] hrun hlast⟩

end OpenCrate.Protocol
