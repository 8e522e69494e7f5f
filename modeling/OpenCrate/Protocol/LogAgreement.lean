import OpenCrate.Data.MerklePrefix
import OpenCrate.Protocol.LogExtensions

/-!
# Witnesses that meet have seen one past

A witness holds no leaves. It keeps the last head of a log and goes on to a new one only if `relate` says
that this is the same or extends it. The server need not have any leaves either: its roots may be hashes of
nothing. What such a witness has checked is still enough to compare it with another one.

If two accepted runs end in one head, then of any two heads in them the smaller is a prefix of the larger,
and there is a path on which `relate` says so (`witnesses_agree`). So a server that has shown two clients
two different pasts can never show both the same head again, and one exchange of heads uncovers it. The way
out is a collision between inputs that the two witnesses have hashed themselves.
-/

namespace OpenCrate.Protocol

open OpenCrate.Crypto
open Merkle (PrefixOf Collides)

variable {blake3 : List UInt8 → Digest}

/-! ### Heads under a head -/

/-- The size of a head as the tree counts it. -/
def Head.count (head : Head) : UInt32 := UInt32.ofNat head.size.toNat

variable (blake3) in
/-- What was hashed shows that the old head is a prefix of the new one. -/
def Head.Before (hashed : List Hashed) (old new : Head) : Prop :=
  old = new ∨ ∃ oldTop newTop,
    (0 < old.size.toNat ∧ old.size.toNat < new.size.toNat ∧ new.size.toNat < 2 ^ 32) ∧
    ((old.count, oldTop) ∈ hashed.flatMap Hashed.roots ∧ old.root = rootOf blake3 old.count oldTop) ∧
    ((new.count, newTop) ∈ hashed.flatMap Hashed.roots ∧ new.root = rootOf blake3 new.count newTop) ∧
    PrefixOf (nodeOf blake3) (hashed.flatMap Hashed.nodes) new.size.toNat newTop old.size.toNat oldTop

variable {hashed : List Hashed} {old mid new a b : Head}

/-- A head is its size and its root. -/
theorem Head.ext {a b : Head} (hsize : a.size.toNat = b.size.toNat) (hroot : a.root = b.root) : a = b := by
  obtain ⟨size, root⟩ := a
  obtain ⟨size', root'⟩ := b
  obtain rfl : size = size' := UInt64.toNat_inj.mp hsize
  obtain rfl : root = root' := hroot
  rfl

/-- A collision among all that was hashed is one of two of the computations. -/
theorem someCollide_of_roots
    (h : Collides (Function.uncurry (rootOf blake3)) (hashed.flatMap Hashed.roots)
      (hashed.flatMap Hashed.roots)) : Hashed.SomeCollide blake3 hashed hashed := by
  obtain ⟨x, hx, y, hy, hne, heq⟩ := h
  obtain ⟨c, hc, hx⟩ := List.mem_flatMap.mp hx
  obtain ⟨d, hd, hy⟩ := List.mem_flatMap.mp hy
  exact ⟨c, hc, d, hd, Or.inl ⟨x, hx, y, hy, hne, heq⟩⟩

/-- A collision of nodes is one of the two kinds. -/
theorem someCollide_of_nodes
    (h : Collides (Function.uncurry (nodeOf blake3)) (hashed.flatMap Hashed.nodes)
      (hashed.flatMap Hashed.nodes)) : Hashed.SomeCollide blake3 hashed hashed := by
  obtain ⟨x, hx, y, hy, hne, heq⟩ := h
  obtain ⟨c, hc, hx⟩ := List.mem_flatMap.mp hx
  obtain ⟨d, hd, hy⟩ := List.mem_flatMap.mp hy
  exact ⟨c, hc, d, hd, Or.inr ⟨x, hx, y, hy, hne, heq⟩⟩

/-- The apex under a root is the only one that was hashed to it. -/
theorem top_eq_or_collide {top top' : Digest} {head : Head}
    (h : (head.count, top) ∈ hashed.flatMap Hashed.roots ∧ head.root = rootOf blake3 head.count top)
    (h' : (head.count, top') ∈ hashed.flatMap Hashed.roots ∧ head.root = rootOf blake3 head.count top') :
    top = top' ∨ Hashed.SomeCollide blake3 hashed hashed := by
  rcases Merkle.eq_or_collides (f := Function.uncurry (rootOf blake3)) h.1 h'.1 (h.2.symm.trans h'.2) with
    heq | hcol
  · exact Or.inl (Prod.mk.inj heq).2
  · exact Or.inr (someCollide_of_roots hcol)

namespace Head.Before

/-- **Heads under heads are under them.** -/
theorem trans (h : Head.Before blake3 hashed old mid) (h' : Head.Before blake3 hashed mid new) :
    Head.Before blake3 hashed old new ∨ Hashed.SomeCollide blake3 hashed hashed := by
  rcases h with rfl | ⟨oldTop, midTop, hsizes, hold, hmid, hprefix⟩
  · exact Or.inl h'
  rcases h' with rfl | ⟨midTop', newTop, hsizes', hmid', hnew, hprefix'⟩
  · exact Or.inl (Or.inr ⟨oldTop, midTop, hsizes, hold, hmid, hprefix⟩)
  rcases top_eq_or_collide hmid hmid' with rfl | hcol
  · rcases hprefix'.trans hprefix with hprefix | hcol
    · exact Or.inl (Or.inr ⟨oldTop, newTop, ⟨hsizes.1, hsizes.2.1.trans hsizes'.2.1, hsizes'.2.2⟩, hold,
        hnew, hprefix⟩)
    · exact Or.inr (someCollide_of_nodes hcol)
  · exact Or.inr hcol

/-- **Two heads under one head**: the smaller is under the larger. -/
theorem agree (h : Head.Before blake3 hashed a new) (h' : Head.Before blake3 hashed b new)
    (hle : a.size.toNat ≤ b.size.toNat) :
    Head.Before blake3 hashed a b ∨ Hashed.SomeCollide blake3 hashed hashed := by
  rcases h' with rfl | ⟨bTop, newTop', hsizes', hb, hnew', hprefix'⟩
  · exact Or.inl h
  rcases h with rfl | ⟨aTop, newTop, hsizes, ha, hnew, hprefix⟩
  · omega
  rcases top_eq_or_collide hnew hnew' with rfl | hcol
  · rcases hprefix'.agree hprefix hle with hprefix | hcol
    · rcases Nat.lt_or_eq_of_le hle with hlt | heq
      · exact Or.inl (Or.inr ⟨aTop, bTop, ⟨hsizes.1, hlt, hsizes'.2.1.trans hsizes'.2.2⟩, ha, hb, hprefix⟩)
      · -- prefixes of one size are one tree
        obtain rfl := hprefix.eq_of_size_eq heq
        refine Or.inl (Or.inl (Head.ext heq ?_))
        rw [ha.2, hb.2, Head.count, Head.count, heq]
    · exact Or.inr (someCollide_of_nodes hcol)
  · exact Or.inr hcol

/-- **A head that is shown to be under another can be proved to be.** -/
theorem exists_relate (h : Head.Before blake3 hashed old new) :
    ∃ path, relate blake3 old.size old.root new.size new.root path =
      if old.size = new.size then .same else .extends := by
  rcases h with rfl | ⟨oldTop, newTop, ⟨hpos, hlt, hwidth⟩, hold, hnew, hprefix⟩
  · refine ⟨[], ?_⟩
    have hself : (Crypto.digestEq old.root old.root && List.isEmpty ([] : List Digest)) = true := by
      rw [Bool.and_eq_true, digestEq_eq_true_iff]
      exact ⟨rfl, rfl⟩
    rw [relate, if_neg (lt_irrefl _), if_pos rfl, if_pos hself, if_pos rfl]
  · obtain ⟨first, rest, hwalk⟩ := Merkle.exists_walk_of_prefixOf hprefix hpos hlt
    have hcount : old.count.toNat = old.size.toNat := UInt32.toNat_ofNat_of_lt' (hlt.trans hwidth)
    have hcount' : new.count.toNat = new.size.toNat := UInt32.toNat_ofNat_of_lt' hwidth
    have hne : old.count ≠ new.count := by
      intro heq
      rw [← UInt32.toNat_inj, hcount, hcount'] at heq
      omega
    have hverify : MerkleTree.verifyConsistency blake3 old.count old.root new.count new.root
        (first :: rest) = true := by
      refine (MerkleTree.verifyConsistency_eq_true_iff hne).mpr ⟨?_, ?_, first, rest, oldTop, newTop, rfl,
        ?_, hold.2.symm, hnew.2.symm⟩
      · rw [UInt32.lt_iff_toNat_lt, hcount]
        exact hpos
      · rw [UInt32.lt_iff_toNat_lt, hcount, hcount']
        exact hlt
      · rw [MerkleTree.consistencyWalk, hcount, hcount']
        exact hwalk
    have hrelate := relate_of_verifyConsistency hlt.le hwidth hverify
    rw [UInt64.ofNat_toNat, UInt64.ofNat_toNat] at hrelate
    refine ⟨first :: rest, hrelate.trans ?_⟩
    rw [if_neg hlt.ne, if_neg fun heq ↦ hlt.ne (congrArg UInt64.toNat heq)]

/-- Heads of one size that are under each other have one root. -/
theorem root_eq (h : Head.Before blake3 hashed old new) (hsize : old.size = new.size) :
    old.root = new.root := by
  rcases h with rfl | ⟨-, -, ⟨-, hlt, -⟩, -⟩
  · rfl
  · exact absurd (congrArg UInt64.toNat hsize) hlt.ne

end Head.Before

/-! ### Runs -/

/-- The two ways to accept a head: it is the old one, or larger, countable and proved. -/
theorem eq_or_verify_of_relate {path : List Digest}
    (h : relate blake3 old.size old.root new.size new.root path = .same ∨
      relate blake3 old.size old.root new.size new.root path = .extends) :
    old = new ∨ (old.size.toNat < new.size.toNat ∧ new.size.toNat < 2 ^ 32 ∧
      MerkleTree.verifyConsistency blake3 old.count old.root new.count new.root path = true) := by
  unfold relate at h
  split at h
  · simp at h
  rename_i hback
  rw [UInt64.lt_iff_toNat_lt, not_lt] at hback
  split at h
  · rename_i hsize
    split at h
    · rename_i hsame
      rw [Bool.and_eq_true, digestEq_eq_true_iff] at hsame
      exact Or.inl (Head.ext (congrArg UInt64.toNat hsize.symm) hsame.1)
    · simp at h
  · rename_i hsize
    rw [← UInt64.toNat_inj] at hsize
    -- a size beyond 32 bits is never accepted
    rw [toUInt32?, toUInt32?] at h
    split_ifs at h with hold hnew
    · rcases hverify : MerkleTree.verifyConsistency blake3 (UInt32.ofNat old.size.toNat) old.root
        (UInt32.ofNat new.size.toNat) new.root path with - | -
      · simp only [hverify, Bool.false_eq_true, if_false] at h
        simp at h
      · exact Or.inr ⟨by omega, hnew, hverify⟩
    all_goals simp at h

/-- **One step.** A head that is accepted has the one before it under it. -/
theorem before_of_relate {shown : Shown} (hmem : hashedByRelate blake3 old shown ∈ hashed)
    (h : relate blake3 old.size old.root shown.head.size shown.head.root shown.path = .same ∨
      relate blake3 old.size old.root shown.head.size shown.head.root shown.path = .extends) :
    Head.Before blake3 hashed old shown.head := by
  rcases eq_or_verify_of_relate h with rfl | ⟨hlt, hwidth, hverify⟩
  · exact Or.inl rfl
  have hcount : old.count.toNat = old.size.toNat := UInt32.toNat_ofNat_of_lt' (hlt.trans hwidth)
  have hcount' : shown.head.count.toNat = shown.head.size.toNat := UInt32.toNat_ofNat_of_lt' hwidth
  have hne : old.count ≠ shown.head.count := by
    intro heq
    rw [← UInt32.toNat_inj, hcount, hcount'] at heq
    omega
  obtain ⟨hpos, -, first, rest, oldTop, newTop, hpath, hwalk, hold, hnew⟩ :=
    (MerkleTree.verifyConsistency_eq_true_iff hne).mp hverify
  rw [UInt32.lt_iff_toNat_lt, hcount] at hpos
  -- both roots and all pairs of the walk are among what the step has hashed
  have hstep : hashedByRelate blake3 old shown =
      MerkleTree.hashedByConsistency blake3 old.count shown.head.count (first :: rest) := by
    rw [hashedByRelate, hpath, Head.count, Head.count]
  have hroots : ∀ r ∈ [(old.count, oldTop), (shown.head.count, newTop)],
      r ∈ hashed.flatMap Hashed.roots := by
    intro r hr
    refine List.mem_flatMap.mpr ⟨_, hmem, ?_⟩
    rw [hstep, MerkleTree.hashedByConsistency, hwalk]
    exact hr
  have hnodes : (MerkleTree.hashedByConsistency blake3 old.count shown.head.count (first :: rest)).nodes ⊆
      hashed.flatMap Hashed.nodes := by
    intro pair hpair
    exact List.mem_flatMap.mpr ⟨_, hmem, hstep ▸ hpair⟩
  rw [MerkleTree.consistencyWalk, hcount, hcount'] at hwalk
  rw [MerkleTree.hashedByConsistency, hcount, hcount'] at hnodes
  exact Or.inr ⟨oldTop, newTop, ⟨hpos, hlt, hwidth⟩,
    ⟨hroots _ List.mem_cons_self, hold.symm⟩,
    ⟨hroots _ (List.mem_cons_of_mem _ List.mem_cons_self), hnew.symm⟩,
    Merkle.prefixOf_of_walk hpos hlt.le hwalk hnodes⟩

/-- **A whole run.** The last head of an accepted run has every head of the run under it. -/
theorem Accepted.before_last {first : Head} {run : List Shown} (hrun : Accepted blake3 first run)
    (hsub : hashedByRun blake3 first run ⊆ hashed) :
    (∀ head ∈ first :: run.map Shown.head, Head.Before blake3 hashed head (lastHead first run)) ∨
      Hashed.SomeCollide blake3 hashed hashed := by
  -- by induction on the run; a step keeps what is shown before it, or two of the inputs collide
  induction run generalizing first with
  | nil => exact Or.inl fun head hmem ↦ Or.inl (List.mem_singleton.mp hmem)
  | cons shown rest ih =>
    obtain ⟨hstep, hrest⟩ := hrun
    obtain ⟨hmem, hsub⟩ := List.cons_subset.mp hsub
    rcases ih hrest hsub with hall | hcol
    · rcases (before_of_relate hmem hstep).trans (hall _ List.mem_cons_self) with hfirst | hcol
      · exact Or.inl (List.forall_mem_cons.mpr ⟨hfirst, hall⟩)
      · exact Or.inr hcol
    · exact Or.inr hcol

/-- **Witnesses that meet have seen one past.** If two accepted runs end in one head, then of any two heads
in them the smaller is a prefix of the larger: heads of one size are equal, and there is a path on which
the smaller is accepted as the past of the larger. Otherwise the two witnesses have hashed a collision. -/
theorem witnesses_agree {first first' : Head} {run run' : List Shown} (h : Accepted blake3 first run)
    (h' : Accepted blake3 first' run') (hlast : lastHead first run = lastHead first' run') :
    (∀ a ∈ first :: run.map Shown.head ++ first' :: run'.map Shown.head,
      ∀ b ∈ first :: run.map Shown.head ++ first' :: run'.map Shown.head,
        a.size.toNat ≤ b.size.toNat →
          (a.size = b.size → a.root = b.root) ∧
          ∃ path, relate blake3 a.size a.root b.size b.root path =
            if a.size = b.size then .same else .extends) ∨
      Hashed.SomeCollide blake3 (hashedByRun blake3 first run ++ hashedByRun blake3 first' run')
        (hashedByRun blake3 first run ++ hashedByRun blake3 first' run') := by
  rcases h.before_last (List.subset_append_left _ (hashedByRun blake3 first' run')) with hall | hcol
  · rcases h'.before_last (List.subset_append_right (hashedByRun blake3 first run) _) with hall' | hcol
    · -- every head of either run is under the common last one
      have hunder : ∀ head ∈ first :: run.map Shown.head ++ first' :: run'.map Shown.head,
          Head.Before blake3 (hashedByRun blake3 first run ++ hashedByRun blake3 first' run') head
            (lastHead first run) := by
        intro head hhead
        rcases List.mem_append.mp hhead with hhead | hhead
        · exact hall head hhead
        · rw [hlast]
          exact hall' head hhead
      refine or_iff_not_imp_right.mpr fun hfree a ha b hb hle ↦ ?_
      have hbefore := ((hunder a ha).agree (hunder b hb) hle).resolve_right hfree
      exact ⟨hbefore.root_eq, hbefore.exists_relate⟩
    · exact Or.inr hcol
  · exact Or.inr hcol

/-- One witness has gone from one leaf to two, another has known the two from the start. -/
theorem witnesses_agree_two_heads :
    Accepted MerkleTree.blake3OfTwoLeaves headOfOne [shownOfTwo] ∧
      ((∃ path, relate MerkleTree.blake3OfTwoLeaves headOfOne.size headOfOne.root shownOfTwo.head.size
          shownOfTwo.head.root path = .extends) ∨
        Hashed.SomeCollide MerkleTree.blake3OfTwoLeaves
          (hashedByRun MerkleTree.blake3OfTwoLeaves headOfOne [shownOfTwo])
          (hashedByRun MerkleTree.blake3OfTwoLeaves headOfOne [shownOfTwo])) := by
  have hrun : Accepted MerkleTree.blake3OfTwoLeaves headOfOne [shownOfTwo] :=
    ⟨Or.inr (by decide +kernel), trivial⟩
  have hother : Accepted MerkleTree.blake3OfTwoLeaves shownOfTwo.head [] := trivial
  have hagree := witnesses_agree hrun hother rfl
  refine ⟨hrun, hagree.imp_left fun hall ↦ ?_⟩
  exact (hall _ List.mem_cons_self shownOfTwo.head
    (List.mem_append_right _ List.mem_cons_self) (by decide)).2

end OpenCrate.Protocol
