import OpenCrate.Crypto.TreeUpdate
import OpenCrate.Data.MerklePositions
import OpenCrate.Protocol.Directory
import OpenCrate.Protocol.LogAgreement

/-!
# One directory for everyone

A client of the directory keeps the last head it has seen and goes on to a new one only if `relate` says that it is
the same or extends the old one. Under any of its heads it looks members up. None of this needs the records of others:
a lookup shows one position under one head (`Head.ShownAt`), what is shown under a head is shown under every head that
extends it (`Head.ShownAt.later`), and a position of a head shows one leaf (`Head.ShownAt.unique`).

So clients that have met, in one head, have been shown one directory: whatever they looked up, under whichever of
their heads, at one index they got one record (`directory_has_no_split_view`). And a monitor that has read all records
of a head has read whatever any client that comes to this head was shown (`monitor_reads_what_is_shown`).
-/

namespace OpenCrate.Protocol

open OpenCrate.Format OpenCrate.Crypto
open Merkle (NodeAt)

variable {blake3 : List UInt8 → Digest}

/-! ### Positions under a head -/

variable (blake3) in
/-- What was hashed shows that the head has the leaf at a position. -/
def Head.ShownAt (hashed : List Hashed) (head : Head) (i : ℕ) (leaf : Leaf) : Prop :=
  ∃ top, ((head.count, top) ∈ hashed.flatMap Hashed.roots ∧ head.root = rootOf blake3 head.count top) ∧
    NodeAt (nodeOf blake3) (hashed.flatMap Hashed.nodes) head.size.toNat top i leaf.bytes

namespace Head.ShownAt

variable {hashed : List Hashed} {old new head : Head} {i : ℕ} {leaf leaf' : Leaf}

/-- **What a head shows, a later one does.** -/
theorem later (h : Head.ShownAt blake3 hashed old i leaf) (hbefore : Head.Before blake3 hashed old new) :
    Head.ShownAt blake3 hashed new i leaf ∨ Hashed.SomeCollide blake3 hashed hashed := by
  rcases hbefore with rfl | ⟨oldTop, newTop, -, hold, hnew, hprefix⟩
  · exact Or.inl h
  obtain ⟨top, htop, hnode⟩ := h
  rcases top_eq_or_collide htop hold with rfl | hcol
  · rcases hnode.of_prefixOf hprefix with hnode | hcol
    · exact Or.inl ⟨newTop, hnew, hnode⟩
    · exact Or.inr (someCollide_of_nodes hcol)
  · exact Or.inr hcol

/-- **A position of a head shows one leaf.** -/
theorem unique (h : Head.ShownAt blake3 hashed head i leaf) (h' : Head.ShownAt blake3 hashed head i leaf') :
    leaf = leaf' ∨ Hashed.SomeCollide blake3 hashed hashed := by
  obtain ⟨top, htop, hnode⟩ := h
  obtain ⟨top', htop', hnode'⟩ := h'
  rcases top_eq_or_collide htop htop' with rfl | hcol
  · rcases hnode.unique hnode' with heq | hcol
    · exact Or.inl (congrArg Leaf.mk heq)
    · exact Or.inr (someCollide_of_nodes hcol)
  · exact Or.inr hcol

end Head.ShownAt

namespace Directory

variable {sha : Sha2} {ed ed' : Ed25519} {lookup lookup' : Lookup} {serverKey serverKey' : Digest}
  {tenant tenant' name name' : String} {record record' : Record}

namespace Lookup

/-- The head of a lookup, as the client keeps it. -/
def shown (lookup : Lookup) : Head := ⟨lookup.head.size, lookup.head.root⟩

/-- What the client hashes to verify a lookup. -/
def hashed (sha : Sha2) (blake3 : List UInt8 → Digest) (lookup : Lookup) : Hashed :=
  MerkleTree.hashedByProof blake3 (UInt32.ofNat lookup.index.toNat) lookup.shown.count
    (Record.leaf sha lookup.record) lookup.path

/-- The proof that a verified lookup carries, in the numbers of the tree. -/
theorem verifyProof_of_verify (h : lookup.verify sha blake3 ed serverKey tenant name = .ok record) :
    lookup.index.toNat < 2 ^ 32 ∧ lookup.head.size.toNat < 2 ^ 32 ∧
      MerkleTree.verifyProof blake3 lookup.head.root (UInt32.ofNat lookup.index.toNat) lookup.shown.count
        (Record.leaf sha lookup.record) lookup.path = true := by
  obtain ⟨-, ⟨index, size, hindex, hsize, hproof⟩, -⟩ := verify_eq_ok_iff.mp h
  have hindex' := toNat_of_toUInt32? hindex
  have hsize' := toNat_of_toUInt32? hsize
  rw [shown, Head.count, ← hindex', ← hsize', UInt32.ofNat_toNat, UInt32.ofNat_toNat]
  exact ⟨index.toNat_lt, size.toNat_lt, hproof⟩

/-- **What is verified is shown.** -/
theorem shownAt_of_verify {hashed : List Hashed} (hmem : lookup.hashed sha blake3 ∈ hashed)
    (h : lookup.verify sha blake3 ed serverKey tenant name = .ok record) :
    Head.ShownAt blake3 hashed lookup.shown lookup.index.toNat (Record.leaf sha lookup.record) := by
  obtain ⟨hindex, hsize, hproof⟩ := verifyProof_of_verify h
  obtain ⟨hlt, top, hroot, hclimb⟩ := MerkleTree.verifyProof_eq_true_iff.mp hproof
  have htop : (lookup.shown.count, top) ∈ (lookup.hashed sha blake3).roots := by
    rw [Lookup.hashed, MerkleTree.hashedByProof, MerkleTree.verifyLoop_eq_climb (Nat.zero_le _), List.drop_zero,
      hclimb]
    exact List.mem_singleton_self _
  have hnodes : (lookup.hashed sha blake3).nodes ⊆ hashed.flatMap Hashed.nodes :=
    fun pair hpair ↦ List.mem_flatMap.mpr ⟨_, hmem, hpair⟩
  have hcount : lookup.shown.count.toNat = lookup.head.size.toNat := UInt32.toNat_ofNat_of_lt' hsize
  have hindex' : (UInt32.ofNat lookup.index.toNat).toNat = lookup.index.toNat := UInt32.toNat_ofNat_of_lt' hindex
  have hnode := Merkle.nodeAt_of_climb (UInt32.lt_iff_toNat_lt.mp hlt) hclimb hnodes
  rw [hcount, hindex'] at hnode
  exact ⟨top, ⟨List.mem_flatMap.mpr ⟨_, hmem, htop⟩, hroot.symm⟩, hnode⟩

/-- Records with one leaf are equal, or they collide. -/
theorem record_eq_or_collide (h : lookup.verify sha blake3 ed serverKey tenant name = .ok record)
    (h' : lookup'.verify sha blake3 ed' serverKey' tenant' name' = .ok record')
    (hleaf : Record.leaf sha lookup.record = Record.leaf sha lookup'.record) :
    (lookup.record = lookup'.record ∧ record = record') ∨ LeafCollision sha lookup.record lookup'.record := by
  refine (eq_or_leafCollision hleaf).imp_left fun heq ↦ ?_
  obtain ⟨-, -, hdecode, -⟩ := verify_eq_ok_iff.mp h
  obtain ⟨-, -, hdecode', -⟩ := verify_eq_ok_iff.mp h'
  rw [heq] at hdecode
  exact ⟨heq, Except.ok.inj (hdecode.symm.trans hdecode')⟩

end Lookup

/-! ### Clients and the monitor -/

variable {first first' : Head} {run run' : List Shown}

/-- **The directory has no split view.** Two clients whose runs end in one head got one record at one index, under
whichever of their heads they looked it up and whatever member they asked for, or SHA-256 collides in the inputs of
the two leaves, or BLAKE3 among what the two have hashed. -/
theorem directory_has_no_split_view (hrun : Accepted blake3 first run) (hrun' : Accepted blake3 first' run')
    (hlast : lastHead first run = lastHead first' run') (hseen : lookup.shown ∈ first :: run.map Shown.head)
    (hseen' : lookup'.shown ∈ first' :: run'.map Shown.head)
    (h : lookup.verify sha blake3 ed serverKey tenant name = .ok record)
    (h' : lookup'.verify sha blake3 ed' serverKey' tenant' name' = .ok record')
    (hindex : lookup.index = lookup'.index) :
    (lookup.record = lookup'.record ∧ record = record') ∨
      Lookup.LeafCollision sha lookup.record lookup'.record ∨
      Hashed.SomeCollide blake3
        (hashedByRun blake3 first run ++ hashedByRun blake3 first' run' ++
          [lookup.hashed sha blake3, lookup'.hashed sha blake3])
        (hashedByRun blake3 first run ++ hashedByRun blake3 first' run' ++
          [lookup.hashed sha blake3, lookup'.hashed sha blake3]) := by
  generalize hall : hashedByRun blake3 first run ++ hashedByRun blake3 first' run' ++
    [lookup.hashed sha blake3, lookup'.hashed sha blake3] = hashed
  have hsub : hashedByRun blake3 first run ⊆ hashed := by
    rw [← hall, List.append_assoc]
    exact List.subset_append_left _ _
  have hsub' : hashedByRun blake3 first' run' ⊆ hashed := by
    rw [← hall]
    exact List.Subset.trans (List.subset_append_right _ _) (List.subset_append_left _ _)
  have hmem : ∀ c ∈ [lookup.hashed sha blake3, lookup'.hashed sha blake3], c ∈ hashed := by
    intro c hc
    rw [← hall]
    exact List.mem_append_right _ hc
  have hshown := Lookup.shownAt_of_verify (hmem _ List.mem_cons_self) h
  have hshown' := Lookup.shownAt_of_verify (hmem _ (List.mem_cons_of_mem _ List.mem_cons_self)) h'
  by_cases hfree : Hashed.SomeCollide blake3 hashed hashed
  · exact Or.inr (Or.inr hfree)
  -- both leaves are shown under the head in which the two clients have met
  have hbefore := (hrun.before_last hsub).resolve_right hfree _ hseen
  have hbefore' := (hrun'.before_last hsub').resolve_right hfree _ hseen'
  rw [← hlast] at hbefore'
  have hmet := (hshown.later hbefore).resolve_right hfree
  have hmet' := (hshown'.later hbefore').resolve_right hfree
  rw [← hindex] at hmet'
  have hleaf := (hmet.unique hmet').resolve_right hfree
  exact (Lookup.record_eq_or_collide h h' hleaf).imp_right Or.inl

/-- The sample record, looked up under the head over it and under that over two records. -/
def sampleLookups : Lookup × Lookup :=
  (⟨firstHead, 0, encodeContents sampleRecord.contents, []⟩,
    ⟨secondHead, 0, encodeContents sampleRecord.contents, [otherLeaf]⟩)

/-- The head over two records, shown to a client that knows the head over the first. -/
def shownOfBoth : Shown := ⟨sampleLookups.2.shown, [sampleLeaf, otherLeaf]⟩

/-- Both records are accepted as shown in one head. -/
theorem accepted_shownOfBoth : Accepted directoryBlake3 sampleLookups.1.shown [shownOfBoth] :=
  ⟨Or.inr (by decide +kernel), trivial⟩

/-- The lookups under both heads give the record of the same person. -/
theorem verify_sampleLookups :
    sampleLookups.1.verify directorySha directoryBlake3 directoryEd25519 directoryServer "acme" "ann" =
        .ok sampleRecord ∧
      sampleLookups.2.verify directorySha directoryBlake3 directoryEd25519 directoryServer "acme" "ann" =
        .ok sampleRecord := by
  have hdecode : Record.decode directorySha (encodeContents sampleRecord.contents) = .ok sampleRecord :=
    decode_encodeContents (by decide) (Encodes.of_forall (by decide) (by decide)) (by decide)
  constructor
  · exact Lookup.verify_eq_ok_iff.mpr
      ⟨by decide +kernel, ⟨0, 1, by decide, by decide, by decide +kernel⟩, hdecode, rfl, rfl⟩
  · exact Lookup.verify_eq_ok_iff.mpr
      ⟨by decide +kernel, ⟨0, 2, by decide, by decide, by decide +kernel⟩, hdecode, rfl, rfl⟩

/-- One client has looked the record up under the first head, another under the second. -/
theorem directory_has_no_split_view_two_heads :
    Accepted directoryBlake3 sampleLookups.1.shown [shownOfBoth] ∧
      ((sampleLookups.1.record = sampleLookups.2.record ∧ sampleRecord = sampleRecord) ∨
        Lookup.LeafCollision directorySha sampleLookups.1.record sampleLookups.2.record ∨
        Hashed.SomeCollide directoryBlake3
          (hashedByRun directoryBlake3 sampleLookups.1.shown [shownOfBoth] ++
            hashedByRun directoryBlake3 shownOfBoth.head [] ++
            [sampleLookups.1.hashed directorySha directoryBlake3,
              sampleLookups.2.hashed directorySha directoryBlake3])
          (hashedByRun directoryBlake3 sampleLookups.1.shown [shownOfBoth] ++
            hashedByRun directoryBlake3 shownOfBoth.head [] ++
            [sampleLookups.1.hashed directorySha directoryBlake3,
              sampleLookups.2.hashed directorySha directoryBlake3])) := by
  have hother : Accepted directoryBlake3 shownOfBoth.head [] := trivial
  exact ⟨accepted_shownOfBoth, directory_has_no_split_view accepted_shownOfBoth hother rfl
    List.mem_cons_self List.mem_cons_self verify_sampleLookups.1 verify_sampleLookups.2 rfl⟩

/-- **The monitor reads what is shown.** If the head in which a client's run ends is that of the journal over the
records that the monitor has read, whatever the client has looked up under any head of its run is the record that the
monitor has read at that index, below the size of that head; or SHA-256 collides in the inputs of two leaves, or BLAKE3
in what the client has hashed and the trees over the records. -/
theorem monitor_reads_what_is_shown {records : List (List UInt8)} {t : MerkleTree}
    (hbuild : MerkleTree.build blake3 (records.map (Record.leaf sha)) = .ok t)
    (hrun : Accepted blake3 first run)
    (hlast : lastHead first run = ⟨UInt64.ofNat records.length, t.root blake3⟩)
    (hseen : lookup.shown ∈ first :: run.map Shown.head)
    (h : lookup.verify sha blake3 ed serverKey tenant name = .ok record) :
    (lookup.index < lookup.head.size ∧ records[lookup.index.toNat]? = some lookup.record) ∨
      (∃ bytes ∈ records, Lookup.LeafCollision sha bytes lookup.record) ∨
      Hashed.SomeCollide blake3 (hashedByPrefixes blake3 (records.map (Record.leaf sha)))
        (hashedByRun blake3 first run ++ [lookup.hashed sha blake3]) := by
  obtain ⟨hne, hlen, -⟩ := MerkleTree.build_eq_ok_iff.mp hbuild
  have hlength : (records.map (Record.leaf sha)).length = records.length := List.length_map _
  have hsize : (UInt64.ofNat records.length).toNat = records.length :=
    UInt64.toNat_ofNat_of_lt' (hlength ▸ hlen.trans (by decide))
  have hprefix : (lastHead first run).IsPrefix blake3 (records.map (Record.leaf sha)) := by
    rw [hlast, Head.IsPrefix, hsize, ← hlength, List.take_of_length_le le_rfl]
    exact ⟨List.length_pos_of_ne_nil hne, le_rfl, t, hbuild, rfl⟩
  rcases hrun.isPrefix hlen hprefix with hall | hcol
  · -- the head of the lookup counts some of the records, and has the root over them
    obtain ⟨hpos, hle, t', ht', hroot⟩ := hall _ hseen
    obtain ⟨t'', top, ht'', htop, hroot'⟩ := MerkleTree.build_take blake3 hlen hpos hle
    obtain rfl : t'' = t' := Except.ok.inj (ht''.symm.trans ht')
    obtain ⟨hindex, -, hproof⟩ := Lookup.verifyProof_of_verify h
    have htake : ((records.map (Record.leaf sha)).take lookup.shown.size.toNat).length =
        lookup.shown.size.toNat := by
      rw [List.length_take, Nat.min_eq_left hle]
    have hroot'' : lookup.head.root = rootOf blake3 (UInt32.ofNat
        ((records.map (Record.leaf sha)).take lookup.shown.size.toNat).length) top := by
      rw [htake]
      exact hroot.trans hroot'
    rw [← List.map_take] at htop
    rw [hroot''] at hproof
    rcases MerkleTree.verifyProof_binding (by omega) htop hproof with ⟨-, hleaf, -⟩ | hcol
    · rw [UInt32.toNat_ofNat_of_lt' hindex, List.getElem?_take] at hleaf
      split_ifs at hleaf with hlt
      rw [List.getElem?_map, Option.map_eq_some_iff] at hleaf
      obtain ⟨bytes, hbytes, hleaf⟩ := hleaf
      rcases Lookup.eq_or_leafCollision hleaf with heq | hcol
      · rw [heq] at hbytes
        exact Or.inl ⟨UInt64.lt_iff_toNat_lt.mpr hlt, hbytes⟩
      · exact Or.inr (Or.inl ⟨bytes, List.mem_of_getElem? hbytes, hcol⟩)
    · have hmem : MerkleTree.hashedByBuild blake3
          ((records.map (Record.leaf sha)).take lookup.shown.size.toNat) ∈
          hashedByPrefixes blake3 (records.map (Record.leaf sha)) :=
        List.mem_map.mpr ⟨_, List.mem_range.mpr (Nat.lt_succ_of_le hle), rfl⟩
      exact Or.inr (Or.inr ⟨_, hmem, _, List.mem_append_right _ List.mem_cons_self, hcol⟩)
  · obtain ⟨c, hc, d, hd, hcol⟩ := hcol
    exact Or.inr (Or.inr ⟨c, hc, d, List.mem_append_left _ hd, hcol⟩)

/-- The monitor has read both records, and a client has looked the first one up before the second was entered. -/
theorem monitor_reads_what_is_shown_two_records :
    Accepted directoryBlake3 sampleLookups.1.shown [shownOfBoth] ∧
      ∃ t, MerkleTree.build directoryBlake3 (sampleRecords.map (Record.leaf directorySha)) = .ok t ∧
        lastHead sampleLookups.1.shown [shownOfBoth] = ⟨2, t.root directoryBlake3⟩ ∧
        ((sampleLookups.1.index < sampleLookups.1.head.size ∧
            sampleRecords[sampleLookups.1.index.toNat]? = some sampleLookups.1.record) ∨
          (∃ bytes ∈ sampleRecords, Lookup.LeafCollision directorySha bytes sampleLookups.1.record) ∨
          Hashed.SomeCollide directoryBlake3
            (hashedByPrefixes directoryBlake3 (sampleRecords.map (Record.leaf directorySha)))
            (hashedByRun directoryBlake3 sampleLookups.1.shown [shownOfBoth] ++
              [sampleLookups.1.hashed directorySha directoryBlake3])) := by
  have hbuild : MerkleTree.build directoryBlake3 (sampleRecords.map (Record.leaf directorySha)) = .ok _ :=
    MerkleTree.build_eq_ok (by decide) (by decide)
  have hlast : lastHead sampleLookups.1.shown [shownOfBoth] = ⟨2, MerkleTree.root directoryBlake3
      ⟨Merkle.levels (nodeOf directoryBlake3)
        ((sampleRecords.map (Record.leaf directorySha)).map Leaf.bytes)⟩⟩ := by
    decide +kernel
  exact ⟨accepted_shownOfBoth, _, hbuild, hlast, monitor_reads_what_is_shown hbuild accepted_shownOfBoth
    hlast List.mem_cons_self verify_sampleLookups.1⟩

end Directory

end OpenCrate.Protocol
