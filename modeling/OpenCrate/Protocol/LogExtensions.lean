import OpenCrate.Protocol.LogViews

/-!
# Honest extensions of a log

What a server that keeps its log shows is always accepted. The path from every earlier head fits in a view,
the view is read as it was written, and the new head is the same as the old one or extends it
(`extensions_shown_and_accepted`). So a witness that is shown the heads of one growing log, each with the
path of its tree from the head before it, accepts the whole run (`Honest.accepted`).
-/

namespace OpenCrate.Protocol

open OpenCrate.Format OpenCrate.Crypto

variable {blake3 : List UInt8 → Digest} {leaves : List Leaf}

/-! ### One extension -/

/-- The relation of two heads that a consistency proof holds between. -/
theorem relate_of_verifyConsistency {m n : ℕ} (hle : m ≤ n) (hn : n < 2 ^ 32) {oldRoot newRoot : Digest}
    {path : List Digest}
    (h : MerkleTree.verifyConsistency blake3 (UInt32.ofNat m) oldRoot (UInt32.ofNat n) newRoot path =
      true) :
    relate blake3 (UInt64.ofNat m) oldRoot (UInt64.ofNat n) newRoot path =
      if m = n then .same else .extends := by
  have hsize {k : ℕ} (hk : k ≤ n) : (UInt64.ofNat k).toNat = k :=
    UInt64.toNat_ofNat_of_lt' (hk.trans_lt (hn.trans (by decide)))
  have hwidth {k : ℕ} (hk : k ≤ n) : toUInt32? (UInt64.ofNat k) = some (UInt32.ofNat k) := by
    rw [toUInt32?, hsize hk, if_pos (hk.trans_lt hn)]
  have hnot : ¬UInt64.ofNat n < UInt64.ofNat m := by
    rw [UInt64.lt_iff_toNat_lt, hsize le_rfl, hsize hle]
    exact hle.not_gt
  rw [relate, if_neg hnot]
  -- of equal sizes the roots are compared, and the path is empty
  by_cases heq : m = n
  · subst heq
    obtain ⟨-, rfl, rfl⟩ := MerkleTree.verifyConsistency_self.1 h
    have hsame : (Crypto.digestEq oldRoot oldRoot && List.isEmpty ([] : List Digest)) = true := by
      rw [Bool.and_eq_true, digestEq_eq_true_iff]
      exact ⟨rfl, rfl⟩
    rw [if_pos rfl, if_pos hsame, if_pos rfl]
  · have hne : ¬UInt64.ofNat n = UInt64.ofNat m := by
      intro hcast
      have hnat := congrArg UInt64.toNat hcast
      rw [hsize le_rfl, hsize hle] at hnat
      exact heq hnat.symm
    rw [if_neg hne, if_neg heq, hwidth hle, hwidth le_rfl]
    exact if_pos h

variable (blake3) in
/-- **Every earlier head is proved**, by a path that fits in a view. -/
theorem exists_extension (hlen : leaves.length < 2 ^ 32) {m : ℕ} (hm : 1 ≤ m) (hle : m ≤ leaves.length) :
    ∃ t old path, MerkleTree.build blake3 leaves = .ok t ∧
      MerkleTree.build blake3 (leaves.take m) = .ok old ∧
      t.consistency blake3 (UInt32.ofNat m) = .ok path ∧ path.length ≤ maxPath ∧
      relate blake3 (UInt64.ofNat m) (old.root blake3) (UInt64.ofNat leaves.length) (t.root blake3) path =
        if m = leaves.length then .same else .extends := by
  have hcount : (UInt32.ofNat m).toNat = m := UInt32.toNat_ofNat_of_lt' (hle.trans_lt hlen)
  obtain ⟨t, old, path, ht, hold, hpath, hverify⟩ :=
    MerkleTree.consistency_complete blake3 hlen (hcount.symm ▸ hm) (hcount.symm ▸ hle)
  rw [hcount] at hold
  refine ⟨t, old, path, ht, hold, hpath, ?_, relate_of_verifyConsistency hle hlen hverify⟩
  rcases Nat.lt_or_eq_of_le hle with hlt | rfl
  · have hshort : path.length ≤ 33 :=
      MerkleTree.length_consistency_le hlen (hcount.symm ▸ hm) (hcount.symm ▸ hlt) ht hpath
    exact hshort.trans (by decide)
  · obtain ⟨-, rfl, -⟩ := MerkleTree.verifyConsistency_self.1 hverify
    exact Nat.zero_le _

/-- A view with a short path to an earlier head is written, and read as it was. -/
theorem View.exists_encode {view : View} (hpath : view.path.length ≤ maxPath) (hsince : view.since ≠ 0)
    (hsize : view.since ≤ view.head.size) : ∃ bytes, view.encode = .ok bytes ∧ decode bytes = .ok view := by
  have hcheck : view.check = .ok () := by
    refine Except.refuseIf_of_not ?_ _
    rintro (hlong | ⟨hzero, -⟩ | hlater)
    · exact hpath.not_gt hlong
    · exact hsince hzero
    · exact (UInt64.not_lt.2 hsize) hlater
  have hencode : ∃ bytes, view.encode = .ok bytes := by
    rw [encode, hcheck, Except.ok_bind]
    exact ⟨_, rfl⟩
  obtain ⟨bytes, hbytes⟩ := hencode
  exact ⟨bytes, hbytes, decode_eq_ok_iff.2 hbytes⟩

/-- **Honest extensions are shown and accepted.** The view of a log from any of its earlier heads is
written and read back, and the heads are the same or the new one extends the old one. What is read as a
view is what is written for it. -/
theorem extensions_shown_and_accepted (blake3 : List UInt8 → Digest) :
    (∀ (leaves : List Leaf) (m : ℕ) (sig : Signature), leaves.length < 2 ^ 32 → 1 ≤ m →
      m ≤ leaves.length → ∃ t old path view, MerkleTree.build blake3 leaves = .ok t ∧
        MerkleTree.build blake3 (leaves.take m) = .ok old ∧
        t.consistency blake3 (UInt32.ofNat m) = .ok path ∧
        view = View.mk ⟨UInt64.ofNat leaves.length, t.root blake3, sig⟩ (UInt64.ofNat m) path ∧
        path.length ≤ maxPath ∧ (∃ bytes, view.encode = .ok bytes ∧ View.decode bytes = .ok view) ∧
        relate blake3 (UInt64.ofNat m) (old.root blake3) (UInt64.ofNat leaves.length) (t.root blake3)
          path = if m = leaves.length then .same else .extends) ∧
    ∀ (bytes : List UInt8) (view : View), View.decode bytes = .ok view → view.encode = .ok bytes := by
  refine ⟨fun leaves m sig hlen hm hle ↦ ?_, fun bytes view ↦ View.decode_eq_ok_iff.1⟩
  obtain ⟨t, old, path, ht, hold, hpath, hshort, hrelate⟩ := exists_extension blake3 hlen hm hle
  have hsize {k : ℕ} (hk : k ≤ leaves.length) : (UInt64.ofNat k).toNat = k :=
    UInt64.toNat_ofNat_of_lt' (hk.trans_lt (hlen.trans (by decide)))
  refine ⟨t, old, path, _, ht, hold, hpath, rfl, hshort, View.exists_encode hshort ?_ ?_, hrelate⟩
  · show UInt64.ofNat m ≠ 0
    intro hzero
    have hnat := congrArg UInt64.toNat hzero
    rw [hsize hle] at hnat
    exact absurd hnat (Nat.one_le_iff_ne_zero.1 hm)
  · show UInt64.ofNat m ≤ UInt64.ofNat leaves.length
    rwa [UInt64.le_iff_toNat_le, hsize hle, hsize le_rfl]

/-! ### A growing log -/

variable (blake3 leaves) in
/-- Heads of one growing log, each shown with the path of its tree from the head before it. -/
def Honest : Head → List Shown → Prop
  | _, [] => True
  | old, shown :: rest =>
    old.size ≤ shown.head.size ∧ shown.head.IsPrefix blake3 leaves ∧
      (∃ t, MerkleTree.build blake3 (leaves.take shown.head.size.toNat) = .ok t ∧
        t.consistency blake3 (UInt32.ofNat old.size.toNat) = .ok shown.path) ∧
      Honest shown.head rest

/-- **One step.** A later head of the log is accepted after an earlier one. -/
theorem Head.IsPrefix.relate (hlen : leaves.length < 2 ^ 32) {old : Head} {shown : Shown}
    (hold : old.IsPrefix blake3 leaves) (hnew : shown.head.IsPrefix blake3 leaves)
    (hle : old.size ≤ shown.head.size) {t : MerkleTree}
    (ht : MerkleTree.build blake3 (leaves.take shown.head.size.toNat) = .ok t)
    (hpath : t.consistency blake3 (UInt32.ofNat old.size.toNat) = .ok shown.path) :
    OpenCrate.Protocol.relate blake3 old.size old.root shown.head.size shown.head.root shown.path =
      if old.size.toNat = shown.head.size.toNat then .same else .extends := by
  obtain ⟨hpos, -, first, hfirst, hfirstRoot⟩ := hold
  obtain ⟨-, hnewLe, last, hlast, hlastRoot⟩ := hnew
  have hlength : (leaves.take shown.head.size.toNat).length = shown.head.size.toNat := by
    rw [List.length_take, Nat.min_eq_left hnewLe]
  have hle' : old.size.toNat ≤ shown.head.size.toNat := UInt64.le_iff_toNat_le.1 hle
  obtain ⟨t', old', path, ht', hold', hpath', -, hrelate⟩ :=
    exists_extension blake3 (hlength.trans_lt (hnewLe.trans_lt hlen)) hpos (hle'.trans_eq hlength.symm)
  -- the trees and the path are those of the two heads
  obtain rfl := Except.ok.inj (ht'.symm.trans ht)
  obtain rfl := Except.ok.inj (hlast.symm.trans ht)
  rw [List.take_take, Nat.min_eq_left hle'] at hold'
  obtain rfl := Except.ok.inj (hold'.symm.trans hfirst)
  obtain rfl := Except.ok.inj (hpath'.symm.trans hpath)
  rwa [hlength, UInt64.ofNat_toNat, UInt64.ofNat_toNat, ← hfirstRoot, ← hlastRoot] at hrelate

/-- **A whole run.** The heads of a growing log are accepted one after the other. -/
theorem Honest.accepted (hlen : leaves.length < 2 ^ 32) {first : Head} {run : List Shown}
    (hfirst : first.IsPrefix blake3 leaves) (hrun : Honest blake3 leaves first run) :
    Accepted blake3 first run := by
  -- by induction on the run: every head of an honest log is a prefix of its leaves
  induction run generalizing first with
  | nil => trivial
  | cons shown rest ih =>
    obtain ⟨hle, hnew, ⟨t, ht, hpath⟩, hrest⟩ := hrun
    refine ⟨?_, ih hnew hrest⟩
    rw [hfirst.relate hlen hnew hle ht hpath]
    split_ifs
    · exact Or.inl rfl
    · exact Or.inr rfl

end OpenCrate.Protocol
