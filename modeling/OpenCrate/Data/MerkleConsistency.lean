import OpenCrate.Data.MerkleLevels

/-!
# Consistency of two Merkle trees

A list and one of its prefixes share all the complete pairs below the end of the prefix. A
consistency path climbs from the last node of the prefix, keeping two accumulators: one towards the
apex of the prefix, one towards the apex of the whole list. Only the two last positions are needed
to tell, level by level, which neighbour comes next.

`walk` is that climb over the last positions `f` and `s` of two levels; `Aligned` is the relation of
the levels that every step preserves. The path itself is found bottom-up by `consistencyPath`.
-/

namespace Merkle

variable {α : Type} (node : α → α → α)

/-! ### Two levels that share all but their ends -/

/-- Level `old` ends at position `f`, level `new` at position `s ≥ f`, and below `f` they agree. -/
structure Aligned (f s : ℕ) (old new : List α) : Prop where
  length_old : old.length = f + 1
  length_new : new.length = s + 1
  le : f ≤ s
  take_eq : old.take f = new.take f

namespace Aligned

variable {node} {f s : ℕ} {old new : List α}

theorem getElem?_eq (h : Aligned f s old new) {i : ℕ} (hi : i < f) : old[i]? = new[i]? := by
  rw [← List.getElem?_take_of_lt hi, h.take_eq, List.getElem?_take_of_lt hi]

/-- Alignment goes up a level. -/
theorem pairUp (h : Aligned f s old new) :
    Aligned (f / 2) (s / 2) (pairUp node old) (pairUp node new) where
  length_old := by
    rw [length_pairUp, h.length_old]
    omega
  length_new := by
    rw [length_pairUp, h.length_new]
    omega
  le := Nat.div_le_div_right h.le
  take_eq := by
    have htake : old.take (2 * (f / 2)) = new.take (2 * (f / 2)) := by
      have hle : 2 * (f / 2) ≤ f := Nat.mul_div_le f 2
      have := congrArg (List.take (2 * (f / 2))) h.take_eq
      rwa [List.take_take, List.take_take, Nat.min_eq_left hle] at this
    rw [← pairUp_take, ← pairUp_take, htake]

/-- The old end, as a right child: its left neighbour is shared. -/
theorem getElem?_old_of_odd (h : Aligned f s old new) (hf : f % 2 = 1) {a b : α}
    (ha : old[f]? = some a) (hb : new[f - 1]? = some b) :
    (Merkle.pairUp node old)[f / 2]? = some (node b a) := by
  have hpos : 2 * (f / 2) = f - 1 := by omega
  have hpos' : 2 * (f / 2) + 1 = f := by omega
  refine getElem?_pairUp_of_pair node ?_ ?_
  · rw [hpos, h.getElem?_eq (by omega), hb]
  · rw [hpos', ha]

/-- The old end, as a left child: nothing is to its right yet. -/
theorem getElem?_old_of_even (h : Aligned f s old new) (hf : f % 2 = 0) {a : α}
    (ha : old[f]? = some a) : (Merkle.pairUp node old)[f / 2]? = some a := by
  have hpos : 2 * (f / 2) = f := by omega
  refine getElem?_pairUp_of_promoted node ?_ ?_
  · rw [hpos, ha]
  · rw [hpos]
    exact List.getElem?_eq_none (Nat.le_of_eq h.length_old)

/-- A prefix is aligned with the whole list. -/
theorem take {l : List α} {m : ℕ} (hm : 0 < m) (hle : m ≤ l.length) :
    Aligned (m - 1) (l.length - 1) (l.take m) l where
  length_old := by
    rw [List.length_take]
    omega
  length_new := by omega
  le := by omega
  take_eq := by rw [List.take_take, Nat.min_eq_left (by omega)]

end Aligned

/-! ### The walk -/

/-- Go up while the old end is a right child: both levels share the pair. -/
def stripRight (f s : ℕ) : ℕ × ℕ :=
  if f % 2 = 1 then stripRight (f / 2) (s / 2) else (f, s)
termination_by f
decreasing_by omega

/-- Go up while the old end is a left child with nothing to its right. -/
def stripLeft (f s : ℕ) : ℕ × ℕ :=
  if f % 2 = 0 ∧ f ≠ 0 then stripLeft (f / 2) (s / 2) else (f, s)
termination_by f
decreasing_by omega

/-- Consume a path from the ends `f` and `s`: a left neighbour enters both accumulators, a right
neighbour only the new one. -/
def walk (f s : ℕ) (old new : α) : List α → Option (α × α)
  | [] => if s = 0 then some (old, new) else none
  | x :: path =>
    if s = 0 then none
    else if f % 2 = 1 ∨ f = s then
      walk ((stripLeft f s).1 / 2) ((stripLeft f s).2 / 2) (node x old) (node x new) path
    else walk (f / 2) (s / 2) old (node new x) path

/-- The pairs hashed by a walk. -/
def walked (f s : ℕ) (old new : α) : List α → List (α × α)
  | [] => []
  | x :: path =>
    if s = 0 then []
    else if f % 2 = 1 ∨ f = s then
      (x, old) :: (x, new) ::
        walked ((stripLeft f s).1 / 2) ((stripLeft f s).2 / 2) (node x old) (node x new) path
    else (new, x) :: walked (f / 2) (s / 2) old (node new x) path

variable {node}

theorem stripLeft_of_odd {f : ℕ} (s : ℕ) (hf : f % 2 = 1) : stripLeft f s = (f, s) := by
  rw [stripLeft, if_neg (by omega)]

/-- A shared end without neighbours on either side goes up unchanged. -/
theorem walk_of_promoted {f : ℕ} {old new : α} {path : List α} (hf : f % 2 = 0) (h0 : f ≠ 0) :
    walk node f f old new path = walk node (f / 2) (f / 2) old new path := by
  rcases path with - | ⟨x, path⟩
  · simp only [walk, h0, if_false]
    rw [if_neg (by omega)]
  · have hhalf : f / 2 ≠ 0 := by omega
    simp only [walk, h0, hhalf, if_false, or_true, if_true]
    rw [stripLeft, if_pos ⟨hf, h0⟩]

/-- A promoted node is passed without a step of the path. -/
theorem walked_of_promoted {f : ℕ} {old new : α} {path : List α} (hf : f % 2 = 0) (h0 : f ≠ 0) :
    walked node f f old new path = walked node (f / 2) (f / 2) old new path := by
  rcases path with - | ⟨x, path⟩
  · rfl
  · have hhalf : f / 2 ≠ 0 := by omega
    simp only [walked, h0, hhalf, if_false, or_true, if_true]
    rw [stripLeft, if_pos ⟨hf, h0⟩]

/-- A left neighbour enters both accumulators. -/
theorem walk_cons_of_odd {f s : ℕ} {old new x : α} {path : List α} (hf : f % 2 = 1)
    (hs : s ≠ 0) :
    walk node f s old new (x :: path) =
      walk node (f / 2) (s / 2) (node x old) (node x new) path := by
  simp only [walk, hs, hf, if_false, true_or, if_true, stripLeft_of_odd]

/-- A right neighbour enters the new accumulator only. -/
theorem walk_cons_of_even {f s : ℕ} {old new x : α} {path : List α} (hf : f % 2 = 0)
    (hlt : f < s) :
    walk node f s old new (x :: path) = walk node (f / 2) (s / 2) old (node new x) path := by
  have hs : s ≠ 0 := by omega
  have hleft : ¬(f % 2 = 1 ∨ f = s) := by omega
  simp only [walk, hs, hleft, if_false]

/-- **Completeness of the walk.** From the two ends, the inclusion path of the old end leads to both
apexes. -/
theorem walk_auditPath {f s : ℕ} {old new : List α} (h : Aligned f s old new) {a b : α}
    (ha : old[f]? = some a) (hb : new[f]? = some b) :
    ∃ oldTop newTop, apex node old = some oldTop ∧ apex node new = some newTop ∧
      walk node f s a b (auditPath node new f) = some (oldTop, newTop) := by
  -- level by level; that the two levels stay aligned carries the induction
  induction new using apex.induct node generalizing f s old a b with
  | case1 new hnew ih =>
    have hs : s ≠ 0 := by
      have := h.length_new
      omega
    have hf : f < new.length := by
      have := h.length_new
      have := h.le
      omega
    rw [← apex_pairUp old, ← apex_pairUp new, auditPath_step hf]
    rcases pairUp_cases node hf with ⟨x, y, hp, hx, hy, hup, -⟩ | ⟨x, hp, hx, hy, hup⟩
    · obtain rfl : b = x := Option.some_inj.mp (hb.symm.trans hx)
      rw [hy]
      rcases Nat.mod_two_eq_zero_or_one f with h0 | h1
      · have hlt : f < s := by
          have := h.length_new
          have := h.le
          simp only [Promoted] at hp
          omega
        obtain ⟨oldTop, newTop, ho, hn, hwalk⟩ := ih h.pairUp (h.getElem?_old_of_even h0 ha) hup
        refine ⟨oldTop, newTop, ho, hn, ?_⟩
        rw [Option.toList_some, List.singleton_append, walk_cons_of_even h0 hlt]
        simpa [orient, h0] using hwalk
      · have hy' : new[f - 1]? = some y := by simpa [sibling, h1] using hy
        obtain ⟨oldTop, newTop, ho, hn, hwalk⟩ :=
          ih h.pairUp (h.getElem?_old_of_odd h1 ha hy') hup
        refine ⟨oldTop, newTop, ho, hn, ?_⟩
        rw [Option.toList_some, List.singleton_append, walk_cons_of_odd h1 hs]
        simpa [orient, h1] using hwalk
    · obtain rfl : b = x := Option.some_inj.mp (hb.symm.trans hx)
      obtain ⟨hodd, hlast⟩ := hp
      obtain rfl : f = s := by
        have := h.length_new
        omega
      have h0 : f % 2 = 0 := by omega
      obtain ⟨oldTop, newTop, ho, hn, hwalk⟩ := ih h.pairUp (h.getElem?_old_of_even h0 ha) hup
      refine ⟨oldTop, newTop, ho, hn, ?_⟩
      rw [hy, Option.toList_none, List.nil_append, walk_of_promoted h0 hs]
      exact hwalk
  | case2 new hnew =>
    obtain ⟨ho, hn, hle, -⟩ := h
    obtain rfl : s = 0 := by omega
    obtain rfl : f = 0 := by omega
    obtain ⟨o, rfl⟩ := List.length_eq_one_iff.mp ho
    obtain ⟨n, rfl⟩ := List.length_eq_one_iff.mp hn
    obtain rfl : o = a := by simpa using ha
    obtain rfl : n = b := by simpa using hb
    refine ⟨o, n, apex_singleton o, apex_singleton n, ?_⟩
    rw [auditPath, if_neg hnew, walk, if_pos rfl]

/-- **Soundness of the walk.** A walk that ends in the apex of `new` started from its node at the
old end, and then it has rebuilt the apex of `old` from the old end; or it hashed a pair that
collides with a pair of the tree over `new`. -/
theorem walk_sound {f s : ℕ} {old new : List α} (h : Aligned f s old new) {a b oldTop newTop : α}
    {path : List α} (htop : apex node new = some newTop)
    (hwalk : walk node f s a b path = some (oldTop, newTop)) :
    (new[f]? = some b ∧ (old[f]? = some a → apex node old = some oldTop)) ∨
      Collides (Function.uncurry node) (hashed node new) (walked node f s a b path) := by
  induction new using apex.induct node generalizing f s old a b path with
  | case1 new hnew ih =>
    have hs : s ≠ 0 := by
      have := h.length_new
      omega
    have hf : f < new.length := by
      have := h.length_new
      have := h.le
      omega
    rw [← apex_pairUp old]
    rw [apex, if_pos hnew] at htop
    rw [hashed, if_pos hnew]
    rcases pairUp_cases node hf with ⟨x, y, hp, hx, hy, hup, hmem⟩ | ⟨x, hp, hx, hy, hup⟩
    · rcases path with - | ⟨z, path⟩
      · exact absurd hwalk (by simp [walk, hs])
      rcases Nat.mod_two_eq_zero_or_one f with h0 | h1
      · have hlt : f < s := by
          have := h.length_new
          have := h.le
          simp only [Promoted] at hp
          omega
        have hwalked : walked node f s a b (z :: path) =
            (b, z) :: walked node (f / 2) (s / 2) a (node b z) path := by
          have hleft : ¬(f % 2 = 1 ∨ f = s) := by omega
          simp only [walked, hs, hleft, if_false]
        rw [walk_cons_of_even h0 hlt] at hwalk
        rw [hwalked]
        rcases ih h.pairUp htop hwalk with ⟨hget, hold⟩ | hcol
        · -- the parent is right, so its right child is the element of the path
          rcases eq_or_collides_of_parent (q := (b, z)) hup hget hmem List.mem_cons_self with
            heq | hcol
          · obtain ⟨rfl, rfl⟩ : x = b ∧ y = z := by simpa [orient, h0] using heq
            exact Or.inl ⟨hx, fun ha ↦ hold (h.getElem?_old_of_even h0 ha)⟩
          · exact Or.inr hcol
        · exact Or.inr (hcol.mono (List.subset_append_right _ _) (List.subset_cons_self _ _))
      · have hwalked : walked node f s a b (z :: path) =
            (z, a) :: (z, b) :: walked node (f / 2) (s / 2) (node z a) (node z b) path := by
          simp only [walked, hs, h1, if_false, true_or, if_true, stripLeft_of_odd]
        rw [walk_cons_of_odd h1 hs] at hwalk
        rw [hwalked]
        rcases ih h.pairUp htop hwalk with ⟨hget, hold⟩ | hcol
        · -- here the element of the path is the left child, and it enters both apexes
          rcases eq_or_collides_of_parent (q := (z, b)) hup hget hmem
            (List.mem_cons_of_mem _ List.mem_cons_self) with heq | hcol
          · obtain ⟨rfl, rfl⟩ : y = z ∧ x = b := by simpa [orient, h1] using heq
            have hy' : new[f - 1]? = some y := by simpa [sibling, h1] using hy
            exact Or.inl ⟨hx, fun ha ↦ hold (h.getElem?_old_of_odd h1 ha hy')⟩
          · exact Or.inr hcol
        · exact Or.inr (hcol.mono (List.subset_append_right _ _)
            (List.Subset.trans (List.subset_cons_self _ _) (List.subset_cons_self _ _)))
    · -- a promoted end is the end of both levels, and the walk takes nothing from the path
      obtain ⟨hodd, hlast⟩ := hp
      obtain rfl : f = s := by
        have := h.length_new
        omega
      have h0 : f % 2 = 0 := by omega
      rw [walk_of_promoted h0 hs] at hwalk
      rw [walked_of_promoted h0 hs]
      rcases ih h.pairUp htop hwalk with ⟨hget, hold⟩ | hcol
      · obtain rfl : x = b := Option.some_inj.mp (hup.symm.trans hget)
        exact Or.inl ⟨hx, fun ha ↦ hold (h.getElem?_old_of_even h0 ha)⟩
      · exact Or.inr (hcol.mono (List.subset_append_right _ _) (List.Subset.refl _))
  | case2 new hnew =>
    obtain ⟨ho, hn, hle, -⟩ := h
    obtain rfl : s = 0 := by omega
    obtain rfl : f = 0 := by omega
    obtain ⟨o, rfl⟩ := List.length_eq_one_iff.mp ho
    obtain ⟨n, rfl⟩ := List.length_eq_one_iff.mp hn
    rcases path with - | ⟨z, path⟩
    · obtain ⟨rfl, rfl⟩ := Prod.mk.inj (Option.some_inj.mp hwalk)
      rw [apex_singleton] at htop ⊢
      exact Or.inl ⟨by simpa using htop, fun ha ↦ by simpa using ha⟩
    · exact absurd hwalk (by simp [walk])

/-! ### Bottom-up consistency paths -/

/-- The path between the first `m` nodes and the whole list: the shared right children are skipped,
then comes the old end and its inclusion path. -/
def consistencyPath (node : α → α → α) (l : List α) (m : ℕ) : List α :=
  if m % 2 = 0 ∧ m ≠ 0 then consistencyPath node (pairUp node l) (m / 2)
  else l[m - 1]?.toList ++ auditPath node l (m - 1)
termination_by m
decreasing_by omega

/-- The path has at most one node for each level, and one at the old end. -/
theorem length_consistencyPath_le (node : α → α → α) {l : List α} (n m : ℕ) (h : l.length ≤ 2 ^ n) :
    (consistencyPath node l m).length ≤ n + 1 := by
  induction m using Nat.strongRecOn generalizing l with
  | ind m ih =>
    rw [consistencyPath]
    -- an even prefix is halved, and the path of an odd one starts with its last leaf
    split_ifs with heven
    · have hup : (pairUp node l).length ≤ 2 ^ n := by
        rw [length_pairUp]
        omega
      exact ih (m / 2) (by omega) hup
    · have hfirst : l[m - 1]?.toList.length ≤ 1 := by
        rcases l[m - 1]? with - | a
        · exact Nat.zero_le 1
        · exact Nat.le_refl 1
      have hrest := length_auditPath_le node n (m - 1) h
      rw [List.length_append]
      omega

/-- What the shared right children leave: two aligned levels with the same node at the old end, over
which the two apexes and the path are unchanged. -/
theorem exists_aligned_stripRight (node : α → α → α) {l : List α} {m : ℕ} (hm : 0 < m) (hle : m ≤ l.length) :
    ∃ old new a, Aligned (stripRight (m - 1) (l.length - 1)).1 (stripRight (m - 1) (l.length - 1)).2
        old new ∧
      old[(stripRight (m - 1) (l.length - 1)).1]? = some a ∧
      new[(stripRight (m - 1) (l.length - 1)).1]? = some a ∧
      apex node old = apex node (l.take m) ∧ apex node new = apex node l ∧
      hashed node new ⊆ hashed node l ∧
      consistencyPath node l m = a :: auditPath node new (stripRight (m - 1) (l.length - 1)).1 := by
  induction m using Nat.strongRecOn generalizing l with
  | ind m ih =>
    rcases Nat.mod_two_eq_zero_or_one m with h0 | h1
    · -- an even prefix ends with a right child: the step up changes neither apex
      have hstrip : stripRight (m - 1) (l.length - 1) =
          stripRight (m / 2 - 1) ((pairUp node l).length - 1) := by
        rw [stripRight, if_pos (by omega), length_pairUp]
        congr 1 <;> omega
      have htake : pairUp node (l.take m) = (pairUp node l).take (m / 2) := by
        rw [← pairUp_take, Nat.mul_div_cancel' (Nat.dvd_of_mod_eq_zero h0)]
      have hle' : m / 2 ≤ (pairUp node l).length := by
        rw [length_pairUp]
        omega
      obtain ⟨old, new, a, hal, ha, hb, hold, hnew, hsub, hpath⟩ :=
        ih (m / 2) (by omega) (by omega) hle'
      rw [hstrip]
      refine ⟨old, new, a, hal, ha, hb, ?_, ?_, ?_, ?_⟩
      · rw [hold, ← htake, apex_pairUp]
      · rw [hnew, apex_pairUp]
      · have hup : hashed node (pairUp node l) ⊆ hashed node l := by
          conv_rhs => rw [hashed, if_pos (by omega : 1 < l.length)]
          exact List.subset_append_right _ _
        exact List.Subset.trans hsub hup
      · rw [consistencyPath, if_pos ⟨h0, by omega⟩, hpath]
    · have hstrip : stripRight (m - 1) (l.length - 1) = (m - 1, l.length - 1) := by
        rw [stripRight, if_neg (by omega)]
      have hget : l[m - 1]? = some l[m - 1] := List.getElem?_eq_getElem (by omega)
      rw [hstrip]
      refine ⟨l.take m, l, l[m - 1], Aligned.take hm hle, ?_, hget, rfl, rfl,
        List.Subset.refl _, ?_⟩
      · rw [List.getElem?_take_of_lt (by omega), hget]
      · rw [consistencyPath, if_neg (by omega), hget]
        rfl

end Merkle
