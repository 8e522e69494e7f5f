import OpenCrate.Data.MerklePrefix

/-!
# Positions of a tree whose leaves nobody shows

What an inclusion proof shows of a tree is one position: an apex over `n` nodes and, under it, the node at
position `i`. Like `PrefixOf`, `NodeAt` is defined from the top, along the split points, and the climb of an
inclusion proof goes from the bottom (`nodeAt_of_climb`).

A position has one node (`NodeAt.unique`), and the nodes of a prefix are those of the tree (`NodeAt.of_prefixOf`).
Both fail only on a pair of pairs that collide.
-/

namespace Merkle

variable {α : Type} (node : α → α → α) (pairs : List (α × α))

/-- Under the apex of `n` nodes, the one at position `i`: the pairs name every node in between. -/
inductive NodeAt : ℕ → α → ℕ → α → Prop
  | alone (a : α) : NodeAt 1 a 0 a
  | left {k n i : ℕ} {l r a : α} (split : IsSplit k n) (lt : i < k) (mem : (l, r) ∈ pairs)
      (sub : NodeAt k l i a) : NodeAt n (node l r) i a
  | right {k n i : ℕ} {l r a : α} (split : IsSplit k n) (le : k ≤ i) (mem : (l, r) ∈ pairs)
      (sub : NodeAt (n - k) r (i - k) a) : NodeAt n (node l r) i a

namespace NodeAt

variable {node pairs} {n m k i : ℕ} {top old a b : α}

theorem lt (h : NodeAt node pairs n top i a) : i < n := by
  induction h with
  | alone => exact Nat.one_pos
  | left split hlt => exact hlt.trans split.lt
  | right split hle mem sub ih => omega

/-- The only node of a tree of one is its apex. -/
theorem eq_of_one (h : NodeAt node pairs n top i a) (hn : n = 1) : a = top := by
  cases h with
  | alone => rfl
  | left split =>
    have := split.pos
    have := split.lt
    omega
  | right split =>
    have := split.pos
    have := split.lt
    omega

theorem of_lt_split (h : NodeAt node pairs n top i a) (hk : IsSplit k n) (hi : i < k) :
    ∃ l r, top = node l r ∧ (l, r) ∈ pairs ∧ NodeAt node pairs k l i a := by
  cases h with
  | alone =>
    have := hk.pos
    have := hk.lt
    omega
  | left split hlt mem sub =>
    obtain rfl := hk.unique split
    exact ⟨_, _, rfl, mem, sub⟩
  | right split hle =>
    obtain rfl := hk.unique split
    omega

theorem of_split_le (h : NodeAt node pairs n top i a) (hk : IsSplit k n) (hi : k ≤ i) :
    ∃ l r, top = node l r ∧ (l, r) ∈ pairs ∧ NodeAt node pairs (n - k) r (i - k) a := by
  cases h with
  | alone =>
    have := hk.pos
    have := hk.lt
    omega
  | left split hlt =>
    obtain rfl := hk.unique split
    omega
  | right split hle mem sub =>
    obtain rfl := hk.unique split
    exact ⟨_, _, rfl, mem, sub⟩

/-- **A position has one node.** -/
theorem unique (h : NodeAt node pairs n top i a) (h' : NodeAt node pairs n top i b) :
    a = b ∨ Collides (Function.uncurry node) pairs pairs := by
  -- by induction on the tree; different children of one node collide
  induction h generalizing b with
  | alone => exact Or.inl (h'.eq_of_one rfl).symm
  | left split hlt mem sub ih =>
    obtain ⟨l', r', htop, hmem, hsub⟩ := h'.of_lt_split split hlt
    rcases PrefixOf.eq_or_collides_of_node mem hmem htop with heq | hcol
    · obtain ⟨rfl, rfl⟩ := Prod.mk.inj heq
      exact ih hsub
    · exact Or.inr hcol
  | right split hle mem sub ih =>
    obtain ⟨l', r', htop, hmem, hsub⟩ := h'.of_split_le split hle
    rcases PrefixOf.eq_or_collides_of_node mem hmem htop with heq | hcol
    · obtain ⟨rfl, rfl⟩ := Prod.mk.inj heq
      exact ih hsub
    · exact Or.inr hcol

/-- **The nodes of a prefix are nodes of the tree**, at the same positions. -/
theorem of_prefixOf (hgrown : PrefixOf node pairs n top m old) (h : NodeAt node pairs m old i a) :
    NodeAt node pairs n top i a ∨ Collides (Function.uncurry node) pairs pairs := by
  induction hgrown generalizing i with
  | whole => exact Or.inl h
  | left split hle mem sub ih => exact (ih h).imp_left fun hsub ↦ left split (h.lt.trans_le hle) mem hsub
  | right split hlt mem mem_old sub ih =>
    have hle := sub.le
    have hkn := split.lt
    have hsplit := split.of_lt hlt (by omega)
    rcases Nat.lt_or_ge i _ with hik | hik
    · -- the left part is common to both
      obtain ⟨l', r', htop, hmem, hsub⟩ := h.of_lt_split hsplit hik
      rcases PrefixOf.eq_or_collides_of_node mem_old hmem htop with heq | hcol
      · obtain ⟨rfl, rfl⟩ := Prod.mk.inj heq
        exact Or.inl (left split hik mem hsub)
      · exact Or.inr hcol
    · obtain ⟨l', r', htop, hmem, hsub⟩ := h.of_split_le hsplit hik
      rcases PrefixOf.eq_or_collides_of_node mem_old hmem htop with heq | hcol
      · obtain ⟨rfl, rfl⟩ := Prod.mk.inj heq
        exact (ih hsub).imp_left fun hsub ↦ right split hik mem hsub
      · exact Or.inr hcol

/-! ### One level down -/

/-- A node with a right neighbour. -/
theorem of_even (h : NodeAt node pairs ((n + 1) / 2) top (i / 2) (node a b)) (hi : i % 2 = 0) (hn : i + 1 < n)
    (hmem : (a, b) ∈ pairs) : NodeAt node pairs n top i a := by
  generalize hn' : (n + 1) / 2 = n', hi' : i / 2 = i', hc : node a b = c at h
  -- by induction on the halved tree, where every split doubles
  induction h generalizing n i with
  | alone c =>
    subst hc
    obtain rfl : i = 0 := by omega
    obtain rfl : n = 2 := by omega
    exact left ⟨⟨0, rfl⟩, by omega, by omega⟩ Nat.one_pos hmem (alone a)
  | left split hlt mem sub ih =>
    subst hn'
    exact left split.double (by omega) mem (ih hi (by omega) (by omega) hi' hc)
  | right split hle mem sub ih =>
    subst hn'
    have hlt := split.lt
    exact right split.double (by omega) mem (ih (by omega) (by omega) (by omega) (by omega) hc)

/-- A node with a left neighbour. -/
theorem of_odd (h : NodeAt node pairs ((n + 1) / 2) top (i / 2) (node b a)) (hi : i % 2 = 1) (hn : i < n)
    (hmem : (b, a) ∈ pairs) : NodeAt node pairs n top i a := by
  generalize hn' : (n + 1) / 2 = n', hi' : i / 2 = i', hc : node b a = c at h
  induction h generalizing n i with
  | alone c =>
    subst hc
    obtain rfl : i = 1 := by omega
    obtain rfl : n = 2 := by omega
    exact right ⟨⟨0, rfl⟩, by omega, by omega⟩ le_rfl hmem (alone a)
  | left split hlt mem sub ih =>
    subst hn'
    exact left split.double (by omega) mem (ih hi (by omega) (by omega) hi' hc)
  | right split hle mem sub ih =>
    subst hn'
    have hlt := split.lt
    exact right split.double (by omega) mem (ih (by omega) (by omega) (by omega) (by omega) hc)

/-- The last node, which has no neighbour. -/
theorem of_promoted (h : NodeAt node pairs ((n + 1) / 2) top (i / 2) a) (hn : n % 2 = 1) (hi : i + 1 = n) :
    NodeAt node pairs n top i a := by
  generalize hn' : (n + 1) / 2 = n', hi' : i / 2 = i' at h
  induction h generalizing n i with
  | alone c =>
    obtain rfl : i = 0 := by omega
    obtain rfl : n = 1 := by omega
    exact alone c
  | left split hlt =>
    subst hn'
    have := split.lt
    omega
  | right split hle mem sub ih =>
    subst hn'
    have hlt := split.lt
    exact right split.double (by omega) mem (ih (by omega) (by omega) (by omega) (by omega))

end NodeAt

/-! ### The climb of an inclusion proof -/

section Climb

variable {node pairs} {n i : ℕ} {a top : α} {path rest : List α}

/-- **What climbs to an apex is a node under it.** -/
theorem nodeAt_of_climb (hi : i < n) (h : climb node n i a path = some (top, rest))
    (hsub : climbed node n i a path ⊆ pairs) : NodeAt node pairs n top i a := by
  -- the cases of the climb: promoted, a path that is used up, a sibling, and the root
  induction n, i, a, path using climb.induct node with
  | case1 n i a path hlen hp ih =>
    rw [climb.eq_def, if_pos hlen, if_pos hp] at h
    rw [climbed.eq_def, if_pos hlen, if_pos hp] at hsub
    exact (ih (by omega) h hsub).of_promoted hp.1 hp.2
  | case2 n i a hlen hp =>
    rw [climb.eq_def, if_pos hlen, if_neg hp] at h
    exact absurd h.symm (Option.some_ne_none _)
  | case3 n i a hlen hp s path ih =>
    rw [climb.eq_def, if_pos hlen, if_neg hp] at h
    rw [climbed.eq_def, if_pos hlen, if_neg hp] at hsub
    obtain ⟨hmem, hsub⟩ := List.cons_subset.mp hsub
    have hup := ih (by omega) h hsub
    rw [Promoted] at hp
    -- the sibling stands to the right of an even node, and to the left of an odd one
    rcases Nat.mod_two_eq_zero_or_one i with h0 | h1
    · rw [orient, if_pos h0] at hup hmem
      exact hup.of_even h0 (by omega) hmem
    · rw [orient, if_neg (by omega)] at hup hmem
      exact hup.of_odd h1 hi hmem
  | case4 n i a path hlen =>
    rw [climb.eq_def, if_neg hlen] at h
    obtain ⟨rfl, -⟩ := Prod.mk.inj (Option.some_inj.mp h)
    obtain rfl : n = 1 := by omega
    obtain rfl : i = 0 := by omega
    exact .alone a

end Climb

end Merkle
