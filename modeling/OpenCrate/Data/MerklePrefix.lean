import OpenCrate.Data.MerkleSplit

/-!
# Prefixes of a tree whose leaves nobody shows

A verifier that holds no leaves knows a tree by its apex and by the pairs it has seen hashed. `PrefixOf`
is what such pairs show: an apex over `n` leaves, and under it the apex over the first `m` of them. It is
defined from the top, along the split points; the climb of a consistency proof goes from the bottom, and
the two describe one thing (`prefixOf_of_walk`, `exists_walk_of_prefixOf`).

Prefixes of prefixes are prefixes (`PrefixOf.trans`), and two prefixes of one tree are prefixes of each
other (`PrefixOf.agree`). Both fail only on a pair of pairs that collide.
-/

namespace Merkle

variable {α : Type} (node : α → α → α) (pairs : List (α × α))

/-! ### Split points -/

namespace IsSplit

variable {k k' n : ℕ}

/-- A tree is split in one place. -/
theorem unique (h : IsSplit k n) (h' : IsSplit k' n) : k = k' := by
  obtain ⟨i, hi⟩ := h.pow
  obtain ⟨j, hj⟩ := h'.pow
  rcases lt_trichotomy k k' with hlt | heq | hgt
  · exact absurd hj (h.ne_two_pow hlt h'.lt j)
  · exact heq
  · exact absurd hi (h'.ne_two_pow hgt h.lt i)

/-- The split point of a level gives that of the level below. -/
theorem double (h : IsSplit k ((n + 1) / 2)) : IsSplit (2 * k) n := by
  obtain ⟨⟨j, hj⟩, hlt, hle⟩ := h
  refine ⟨⟨j + 1, ?_⟩, by omega, by omega⟩
  rw [hj, Nat.pow_succ, Nat.mul_comm]

/-- A list that reaches beyond the split point of a longer one is split at the same point. -/
theorem of_lt (h : IsSplit k n) {m : ℕ} (hkm : k < m) (hmn : m ≤ n) : IsSplit k m :=
  ⟨h.pow, hkm, hmn.trans h.le⟩

end IsSplit

/-! ### Prefixes from the top -/

/-- Under the apex of `n` leaves, the apex of the first `m`: the pairs name every node in between. -/
inductive PrefixOf : ℕ → α → ℕ → α → Prop
  | whole (n : ℕ) (top : α) : PrefixOf n top n top
  /-- The prefix ends in the left part. -/
  | left {k n m : ℕ} {l r old : α} (split : IsSplit k n) (le : m ≤ k) (mem : (l, r) ∈ pairs)
      (sub : PrefixOf k l m old) : PrefixOf n (node l r) m old
  /-- The prefix has the left part, and ends in the right one. -/
  | right {k n m : ℕ} {l r old : α} (split : IsSplit k n) (lt : k < m) (mem : (l, r) ∈ pairs)
      (mem_old : (l, old) ∈ pairs) (sub : PrefixOf (n - k) r (m - k) old) :
      PrefixOf n (node l r) m (node l old)

namespace PrefixOf

variable {node pairs} {n m k : ℕ} {top mid old old' : α}

theorem le (h : PrefixOf node pairs n top m old) : m ≤ n := by
  induction h with
  | whole => exact le_rfl
  | left split hle => exact hle.trans split.lt.le
  | right split hlt mem mem_old sub ih =>
    have := split.lt
    omega

theorem pos (h : PrefixOf node pairs n top m old) (hn : 0 < n) : 0 < m := by
  induction h with
  | whole => exact hn
  | left split hle mem sub ih => exact ih split.pos
  | right split hlt => omega

/-- The whole is the only prefix of its size. -/
theorem eq_of_size_eq (h : PrefixOf node pairs n top m old) (hmn : m = n) : old = top := by
  induction h with
  | whole => rfl
  | left split hle =>
    have := split.lt
    omega
  | right split hlt mem mem_old sub ih => rw [ih (by omega)]

/-- A prefix that ends in the left part is one of the left part. -/
theorem of_le_split (h : PrefixOf node pairs n top m old) (hk : IsSplit k n) (hm : m ≤ k) :
    ∃ l r, top = node l r ∧ (l, r) ∈ pairs ∧ PrefixOf node pairs k l m old := by
  cases h with
  | whole =>
    have := hk.lt
    omega
  | left split hle mem sub =>
    obtain rfl := hk.unique split
    exact ⟨_, _, rfl, mem, sub⟩
  | right split hlt =>
    obtain rfl := hk.unique split
    omega

/-- A prefix that reaches into the right part has the left one. -/
theorem of_split_lt (h : PrefixOf node pairs n top m old) (hk : IsSplit k n) (hm : k < m)
    (hmn : m < n) : ∃ l r old', top = node l r ∧ old = node l old' ∧ (l, r) ∈ pairs ∧
      (l, old') ∈ pairs ∧ PrefixOf node pairs (n - k) r (m - k) old' := by
  cases h with
  | whole => exact absurd hmn (lt_irrefl _)
  | left split hle =>
    obtain rfl := hk.unique split
    omega
  | right split hlt mem mem_old sub =>
    obtain rfl := hk.unique split
    exact ⟨_, _, _, rfl, rfl, mem, mem_old, sub⟩

/-- Two pairs that hash to one node are the same pair, or they collide. -/
theorem eq_or_collides_of_node {p q : α × α} (hp : p ∈ pairs) (hq : q ∈ pairs)
    (h : node p.1 p.2 = node q.1 q.2) :
    p = q ∨ Collides (Function.uncurry node) pairs pairs :=
  eq_or_collides hp hq h

/-- **A prefix of a prefix is a prefix.** -/
theorem trans (h : PrefixOf node pairs n top k mid) (h' : PrefixOf node pairs k mid m old) :
    PrefixOf node pairs n top m old ∨ Collides (Function.uncurry node) pairs pairs := by
  induction h generalizing m old with
  | whole => exact Or.inl h'
  | left split hle mem sub ih => exact (ih h').imp_left fun h ↦ left split (h'.le.trans hle) mem h
  | @right s n k l r mid split hlt mem mem_old sub ih =>
    have hkn : k ≤ n := by
      have := sub.le
      have := split.lt
      omega
    have hsplit : IsSplit s k := split.of_lt hlt hkn
    rcases Nat.lt_or_ge s m with hsm | hms
    · rcases Nat.lt_or_eq_of_le h'.le with hmk | rfl
      · -- both reach into the right part, and share the left one
        obtain ⟨l', r', old', hmid, rfl, hmem, hmem', hsub⟩ := h'.of_split_lt hsplit hsm hmk
        rcases eq_or_collides_of_node mem_old hmem hmid with heq | hcol
        · obtain ⟨rfl, rfl⟩ := Prod.mk.inj heq
          exact (ih hsub).imp_left fun h ↦ right split hsm mem hmem' h
        · exact Or.inr hcol
      · rw [h'.eq_of_size_eq rfl]
        exact Or.inl (right split hlt mem mem_old sub)
    · obtain ⟨l', r', hmid, hmem, hsub⟩ := h'.of_le_split hsplit hms
      rcases eq_or_collides_of_node mem_old hmem hmid with heq | hcol
      · obtain ⟨rfl, rfl⟩ := Prod.mk.inj heq
        exact Or.inl (left split hms mem hsub)
      · exact Or.inr hcol

/-- **Two prefixes of one tree agree**: the shorter one is a prefix of the longer one. -/
theorem agree (h : PrefixOf node pairs n top m mid) (h' : PrefixOf node pairs n top k old)
    (hkm : k ≤ m) :
    PrefixOf node pairs m mid k old ∨ Collides (Function.uncurry node) pairs pairs := by
  induction h generalizing k old with
  | whole => exact Or.inl h'
  | left split hle mem sub ih =>
    obtain ⟨l', r', htop, hmem, hsub⟩ := h'.of_le_split split (hkm.trans hle)
    rcases eq_or_collides_of_node mem hmem htop with heq | hcol
    · obtain ⟨rfl, rfl⟩ := Prod.mk.inj heq
      exact ih hsub hkm
    · exact Or.inr hcol
  | @right s n m l r mid split hlt mem mem_old sub ih =>
    have hmn : m ≤ n := by
      have := sub.le
      have := split.lt
      omega
    have hsplit : IsSplit s m := split.of_lt hlt hmn
    rcases Nat.lt_or_ge s k with hsk | hks
    · rcases Nat.lt_or_eq_of_le h'.le with hkn | rfl
      · obtain ⟨l', r', old', htop, rfl, hmem, hmem', hsub⟩ := h'.of_split_lt split hsk hkn
        rcases eq_or_collides_of_node mem hmem htop with heq | hcol
        · obtain ⟨rfl, rfl⟩ := Prod.mk.inj heq
          exact (ih hsub (by omega)).imp_left fun h ↦ right hsplit hsk mem_old hmem' h
        · exact Or.inr hcol
      · -- both are the whole tree
        obtain rfl : k = m := le_antisymm hkm hmn
        rw [h'.eq_of_size_eq rfl, ← (right split hlt mem mem_old sub).eq_of_size_eq rfl]
        exact Or.inl (whole _ _)
    · obtain ⟨l', r', htop, hmem, hsub⟩ := h'.of_le_split split hks
      rcases eq_or_collides_of_node mem hmem htop with heq | hcol
      · obtain ⟨rfl, rfl⟩ := Prod.mk.inj heq
        exact Or.inl (left hsplit hks mem_old hsub)
      · exact Or.inr hcol

/-- An even prefix goes up a level. -/
theorem half (h : PrefixOf node pairs n top m old) (hm : m % 2 = 0) (hn : 0 < n) :
    PrefixOf node pairs ((n + 1) / 2) top (m / 2) old := by
  induction h with
  | whole n top =>
    rw [show (n + 1) / 2 = n / 2 by omega]
    exact whole _ _
  | @left k n m l r old split hle mem sub ih =>
    have hpos := sub.pos split.pos
    have hlt := split.lt
    obtain ⟨heven, hhalf⟩ := split.half (by omega)
    have hsub := ih hm split.pos
    rw [show (k + 1) / 2 = k / 2 by omega] at hsub
    exact left hhalf (by omega) mem hsub
  | @right k n m l r old split hlt mem mem_old sub ih =>
    have hkn := split.lt
    rcases Nat.lt_or_ge 2 n with hn2 | hn2
    · obtain ⟨heven, hhalf⟩ := split.half hn2
      have hsub := ih (by omega) (by omega)
      rw [show (n - k + 1) / 2 = (n + 1) / 2 - k / 2 by omega,
        show (m - k) / 2 = m / 2 - k / 2 by omega] at hsub
      exact right hhalf (by omega) mem mem_old hsub
    · -- two leaves, and a prefix of two
      obtain rfl := split.eq_one hn2
      have hle := sub.le
      obtain rfl : n = 2 := by omega
      obtain rfl : m = 2 := by omega
      rw [sub.eq_of_size_eq rfl]
      exact whole _ _

/-- A prefix of a level is an even prefix of the level below. -/
theorem of_half (h : PrefixOf node pairs ((n + 1) / 2) top (m / 2) old) (hm : m % 2 = 0)
    (hmn : m ≤ n) : PrefixOf node pairs n top m old := by
  generalize hn' : (n + 1) / 2 = n' at h
  generalize hm' : m / 2 = m' at h
  -- by induction on the halved tree, where every split doubles
  induction h generalizing n m with
  | whole n' top =>
    obtain rfl : m = n := by omega
    exact whole _ _
  | left split hle mem sub ih =>
    subst hn'
    exact left split.double (by omega) mem (ih hm (by omega) (by omega) hm')
  | right split hlt mem mem_old sub ih =>
    subst hn'
    have hkn := split.lt
    exact right split.double (by omega) mem mem_old (ih (by omega) (by omega) (by omega) (by omega))

end PrefixOf

/-! ### Prefixes from the bottom -/

/-- The apex `new` over `s + 1` nodes, of which the one at `f` is `b`, and the apex `old` over the first
`f` of them and `a`. -/
inductive Climbs : ℕ → ℕ → α → α → α → α → Prop
  | leaf (a b : α) : Climbs 0 0 a b a b
  | left {k f s : ℕ} {a b l r old : α} (split : IsSplit k (s + 1)) (lt : f < k) (mem : (l, r) ∈ pairs)
      (sub : Climbs f (k - 1) a b old l) : Climbs f s a b old (node l r)
  | right {k f s : ℕ} {a b l r old : α} (split : IsSplit k (s + 1)) (le : k ≤ f) (mem : (l, r) ∈ pairs)
      (mem_old : (l, old) ∈ pairs) (sub : Climbs (f - k) (s - k) a b old r) :
      Climbs f s a b (node l old) (node l r)

namespace Climbs

variable {node pairs} {f s : ℕ} {a b x old new : α}

/-- Where both ends are one node, the old apex is that of a prefix. -/
theorem prefixOf (h : Climbs node pairs f s a b old new) (hab : a = b) :
    PrefixOf node pairs (s + 1) new (f + 1) old := by
  induction h with
  | leaf => exact hab ▸ .whole _ _
  | left split hlt mem sub ih =>
    have hsub := ih hab
    rw [Nat.sub_add_cancel split.pos] at hsub
    exact .left split hlt mem hsub
  | @right k f s a b l r old split hle mem mem_old sub ih =>
    have hlt := split.lt
    have hsub := ih hab
    rw [show s - k + 1 = s + 1 - k by omega, show f - k + 1 = f + 1 - k by omega] at hsub
    exact .right split (by omega) mem mem_old hsub

/-- A left neighbour below. -/
theorem of_odd (h : Climbs node pairs (f / 2) (s / 2) (node x a) (node x b) old new)
    (hf : f % 2 = 1) (hle : f ≤ s) (ha : (x, a) ∈ pairs) (hb : (x, b) ∈ pairs) :
    Climbs node pairs f s a b old new := by
  generalize hf' : f / 2 = f', hs' : s / 2 = s', ha' : node x a = a', hb' : node x b = b' at h
  induction h generalizing f s with
  | leaf =>
    subst ha' hb'
    obtain rfl : f = 1 := by omega
    obtain rfl : s = 1 := by omega
    exact right ⟨⟨0, rfl⟩, by omega, by omega⟩ le_rfl hb ha (leaf a b)
  | @left k f' s' _ _ l r old split hlt mem sub ih =>
    have hsplit : IsSplit (2 * k) (s + 1) := IsSplit.double (by rwa [show (s + 1 + 1) / 2 = s' + 1 by omega])
    exact left hsplit (by omega) mem (ih hf (by omega) hf' (by omega) ha' hb')
  | @right k f' s' _ _ l r old split hk mem mem_old sub ih =>
    have hsplit : IsSplit (2 * k) (s + 1) := IsSplit.double (by rwa [show (s + 1 + 1) / 2 = s' + 1 by omega])
    have hlt := split.lt
    exact right hsplit (by omega) mem mem_old (ih (by omega) (by omega) (by omega) (by omega) ha' hb')

/-- A right neighbour below. -/
theorem of_even (h : Climbs node pairs (f / 2) (s / 2) a (node b x) old new) (hf : f % 2 = 0)
    (hlt : f < s) (hb : (b, x) ∈ pairs) : Climbs node pairs f s a b old new := by
  generalize hf' : f / 2 = f', hs' : s / 2 = s', hb' : node b x = b' at h
  induction h generalizing f s with
  | leaf =>
    subst hb'
    obtain rfl : f = 0 := by omega
    obtain rfl : s = 1 := by omega
    exact left ⟨⟨0, rfl⟩, by omega, by omega⟩ (by omega) hb (leaf _ b)
  | @left k f' s' _ _ l r old split hk mem sub ih =>
    have hsplit : IsSplit (2 * k) (s + 1) := IsSplit.double (by rwa [show (s + 1 + 1) / 2 = s' + 1 by omega])
    exact left hsplit (by omega) mem (ih hf (by omega) hf' (by omega) hb')
  | @right k f' s' _ _ l r old split hk mem mem_old sub ih =>
    have hsplit : IsSplit (2 * k) (s + 1) := IsSplit.double (by rwa [show (s + 1 + 1) / 2 = s' + 1 by omega])
    exact right hsplit (by omega) mem mem_old (ih (by omega) (by omega) (by omega) (by omega) hb')

/-- No neighbour below: the last node is promoted. -/
theorem of_promoted (h : Climbs node pairs (f / 2) (s / 2) a b old new) (hf : f % 2 = 0)
    (hfs : f = s) : Climbs node pairs f s a b old new := by
  generalize hf' : f / 2 = f', hs' : s / 2 = s' at h
  induction h generalizing f s with
  | leaf =>
    obtain rfl : f = 0 := by omega
    obtain rfl : s = 0 := hfs.symm
    exact leaf _ _
  | @left k f' s' _ _ l r old split hk =>
    have := split.lt
    omega
  | @right k f' s' _ _ l r old split hk mem mem_old sub ih =>
    have hsplit : IsSplit (2 * k) (s + 1) := IsSplit.double (by rwa [show (s + 1 + 1) / 2 = s' + 1 by omega])
    exact right hsplit (by omega) mem mem_old (ih (by omega) (by omega) (by omega) (by omega))

theorem le (h : Climbs node pairs f s a b old new) : f ≤ s := by
  induction h with
  | leaf => exact le_rfl
  | left split hlt =>
    have := split.lt
    omega
  | right split hle mem mem_old sub ih =>
    have := split.lt
    omega

/-- One node is its own tree. -/
theorem eq_of_zero (h : Climbs node pairs f s a b old new) (hs : s = 0) : old = a ∧ new = b := by
  cases h with
  | leaf => exact ⟨rfl, rfl⟩
  | left split =>
    have := split.pos
    have := split.lt
    omega
  | right split =>
    have := split.pos
    have := split.lt
    omega

/-- **What is below the apexes**: one more level of a tree that has more than one node. -/
theorem step (h : Climbs node pairs f s a b old new) (hs : s ≠ 0) :
    (f % 2 = 1 ∧ ∃ x, Climbs node pairs (f / 2) (s / 2) (node x a) (node x b) old new) ∨
      (f % 2 = 0 ∧ f < s ∧ ∃ x, Climbs node pairs (f / 2) (s / 2) a (node b x) old new) ∨
      (f % 2 = 0 ∧ f = s ∧ Climbs node pairs (f / 2) (s / 2) a b old new) := by
  induction h with
  | leaf => exact absurd rfl hs
  | @left k f s a b l r old split hlt mem sub ih =>
    have hks := split.lt
    rcases Nat.lt_or_ge 2 (s + 1) with hs2 | hs2
    · obtain ⟨heven, hhalf⟩ := split.half hs2
      have hup : IsSplit (k / 2) (s / 2 + 1) := by rwa [show (s + 1 + 1) / 2 = s / 2 + 1 by omega] at hhalf
      have hpos := hup.pos
      rw [show (k - 1) / 2 = k / 2 - 1 by omega] at ih
      rcases ih (by omega) with ⟨hf, x, h⟩ | ⟨hf, hfs, x, h⟩ | ⟨hf, hfs, -⟩
      · exact Or.inl ⟨hf, x, left hup (by omega) mem h⟩
      · exact Or.inr (Or.inl ⟨hf, by omega, x, left hup (by omega) mem h⟩)
      · omega
    · -- a leaf with a leaf to its right
      obtain rfl := split.eq_one hs2
      obtain rfl : s = 1 := by omega
      obtain rfl : f = 0 := by omega
      obtain ⟨rfl, rfl⟩ := sub.eq_of_zero rfl
      exact Or.inr (Or.inl ⟨rfl, by omega, r, leaf _ _⟩)
  | @right k f s a b l r old split hle mem mem_old sub ih =>
    have hks := split.lt
    rcases Nat.lt_or_ge 2 (s + 1) with hs2 | hs2
    · obtain ⟨heven, hhalf⟩ := split.half hs2
      have hup : IsSplit (k / 2) (s / 2 + 1) := by rwa [show (s + 1 + 1) / 2 = s / 2 + 1 by omega] at hhalf
      rw [show (f - k) / 2 = f / 2 - k / 2 by omega, show (s - k) / 2 = s / 2 - k / 2 by omega] at ih
      rcases Nat.eq_zero_or_pos (s - k) with hzero | hpos
      · -- the right part is one leaf, which is promoted
        obtain ⟨rfl, rfl⟩ := sub.eq_of_zero hzero
        have hfs := sub.le
        have hpair := right hup (by omega : k / 2 ≤ f / 2) mem mem_old
          (show Climbs node pairs (f / 2 - k / 2) (s / 2 - k / 2) old r old r by
            rw [show f / 2 - k / 2 = 0 by omega, show s / 2 - k / 2 = 0 by omega]
            exact leaf _ _)
        exact Or.inr (Or.inr ⟨by omega, by omega, hpair⟩)
      · rcases ih (by omega) with ⟨hf, x, h⟩ | ⟨hf, hfs, x, h⟩ | ⟨hf, hfs, h⟩
        · exact Or.inl ⟨by omega, x, right hup (by omega) mem mem_old h⟩
        · exact Or.inr (Or.inl ⟨by omega, by omega, x, right hup (by omega) mem mem_old h⟩)
        · exact Or.inr (Or.inr ⟨by omega, by omega, right hup (by omega) mem mem_old h⟩)
    · -- a leaf with a leaf to its left
      obtain rfl := split.eq_one hs2
      obtain rfl : s = 1 := by omega
      have hfs := sub.le
      obtain rfl : f = 1 := by omega
      obtain ⟨rfl, rfl⟩ := sub.eq_of_zero rfl
      exact Or.inl ⟨rfl, l, leaf _ _⟩

end Climbs

/-! ### The climb of a consistency proof -/

section Walk

variable {node pairs} {f s n m : ℕ} {a b x old new top : α} {path : List α}

theorem walked_cons_of_odd (hf : f % 2 = 1) (hs : s ≠ 0) :
    walked node f s a b (x :: path) =
      (x, a) :: (x, b) :: walked node (f / 2) (s / 2) (node x a) (node x b) path := by
  simp only [walked, hs, hf, if_false, true_or, if_true, stripLeft_of_odd]

theorem walked_cons_of_even (hf : f % 2 = 0) (hlt : f < s) :
    walked node f s a b (x :: path) = (b, x) :: walked node (f / 2) (s / 2) a (node b x) path := by
  have hs : s ≠ 0 := by omega
  have hleft : ¬(f % 2 = 1 ∨ f = s) := by omega
  simp only [walked, hs, hleft, if_false]

theorem walk_nil_of_pos (hs : s ≠ 0) : walk node f s a b [] = none := if_neg hs

/-- **A walk climbs.** -/
theorem climbs_of_walk (hle : f ≤ s) (h : walk node f s a b path = some (old, new))
    (hsub : walked node f s a b path ⊆ pairs) : Climbs node pairs f s a b old new := by
  -- by strong induction on the size: each case of the walk halves it
  induction s using Nat.strongRecOn generalizing f a b path with
  | ind s ih =>
    rcases Nat.eq_zero_or_pos s with rfl | hs
    · obtain rfl : f = 0 := by omega
      cases path with
      | nil =>
        obtain ⟨rfl, rfl⟩ := Prod.mk.inj (Option.some_inj.mp h)
        exact .leaf _ _
      | cons x path => exact absurd h (by simp [walk])
    rcases Nat.mod_two_eq_zero_or_one f with h0 | h1
    -- an even position has a sibling on the right, unless it is promoted
    · rcases Nat.lt_or_eq_of_le hle with hlt | rfl
      · cases path with
        | nil => exact absurd ((walk_nil_of_pos hs.ne').symm.trans h) (Option.some_ne_none _).symm
        | cons x path =>
          rw [walk_cons_of_even h0 hlt] at h
          rw [walked_cons_of_even h0 hlt] at hsub
          obtain ⟨hmem, hrest⟩ := List.cons_subset.mp hsub
          exact (ih (s / 2) (by omega) (by omega) h hrest).of_even h0 hlt hmem
      · rw [walk_of_promoted h0 hs.ne'] at h
        rw [walked_of_promoted h0 hs.ne'] at hsub
        exact (ih (f / 2) (by omega) le_rfl h hsub).of_promoted h0 rfl
    · cases path with
      | nil => exact absurd ((walk_nil_of_pos hs.ne').symm.trans h) (Option.some_ne_none _).symm
      | cons x path =>
        rw [walk_cons_of_odd h1 hs.ne'] at h
        rw [walked_cons_of_odd h1 hs.ne'] at hsub
        obtain ⟨hold, hsub⟩ := List.cons_subset.mp hsub
        obtain ⟨hnew, hrest⟩ := List.cons_subset.mp hsub
        exact (ih (s / 2) (by omega) (by omega) h hrest).of_odd h1 hle hold hnew

/-- **What climbs is walked** along some path. -/
theorem Climbs.exists_walk (h : Climbs node pairs f s a b old new) :
    ∃ path, walk node f s a b path = some (old, new) := by
  induction s using Nat.strongRecOn generalizing f a b with
  | ind s ih =>
    rcases Nat.eq_zero_or_pos s with rfl | hs
    · obtain ⟨rfl, rfl⟩ := h.eq_of_zero rfl
      exact ⟨[], if_pos rfl⟩
    rcases h.step hs.ne' with ⟨hf, x, h⟩ | ⟨hf, hlt, x, h⟩ | ⟨hf, rfl, h⟩
    · obtain ⟨path, hpath⟩ := ih (s / 2) (by omega) h
      exact ⟨x :: path, (walk_cons_of_odd hf hs.ne').trans hpath⟩
    · obtain ⟨path, hpath⟩ := ih (s / 2) (by omega) h
      exact ⟨x :: path, (walk_cons_of_even hf hlt).trans hpath⟩
    · obtain ⟨path, hpath⟩ := ih (f / 2) (by omega) h
      exact ⟨path, (walk_of_promoted hf hs.ne').trans hpath⟩

/-- An odd prefix ends in a node that both trees have. -/
theorem PrefixOf.exists_climbs (h : PrefixOf node pairs n top m old) (hm : m % 2 = 1)
    (hmn : m < n ∨ n = 1) : ∃ a, Climbs node pairs (m - 1) (n - 1) a a old top := by
  -- by induction on where the prefix ends
  induction h with
  | whole n top =>
    obtain rfl : n = 1 := by omega
    exact ⟨top, .leaf _ _⟩
  | @left k n m l r old split hle mem sub ih =>
    have hkn := split.lt
    have hpos := split.pos
    -- an odd prefix is not the whole left half, whose size is even unless it is one
    have hlast : m < k ∨ k = 1 := by
      rcases Nat.lt_or_ge 2 n with hn | hn
      · obtain ⟨heven, -⟩ := split.half hn
        omega
      · exact Or.inr (split.eq_one hn)
    obtain ⟨a, h⟩ := ih hm hlast
    have hsplit : IsSplit k (n - 1 + 1) := by rwa [Nat.sub_add_cancel (by omega)]
    exact ⟨a, .left hsplit (by omega) mem h⟩
  | @right k n m l r old split hlt mem mem_old sub ih =>
    have hkn := split.lt
    have hpos := split.pos
    have hle := sub.le
    have hn : 2 < n := by
      by_contra hn
      have := split.eq_one (by omega)
      omega
    obtain ⟨heven, -⟩ := split.half hn
    obtain ⟨a, h⟩ := ih (by omega) (by omega)
    rw [show m - k - 1 = m - 1 - k by omega, show n - k - 1 = n - 1 - k by omega] at h
    have hsplit : IsSplit k (n - 1 + 1) := by rwa [Nat.sub_add_cancel (by omega)]
    exact ⟨a, .right hsplit (by omega) mem mem_old h⟩

/-- The shared right children are a level each. -/
theorem stripRight_of_even (hm : 0 < m) (h0 : m % 2 = 0) (hmn : m ≤ n) :
    stripRight (m - 1) (n - 1) = stripRight (m / 2 - 1) ((n + 1) / 2 - 1) := by
  rw [stripRight, if_pos (by omega)]
  congr 1 <;> omega

/-- **The walk of a consistency proof shows a prefix.** -/
theorem prefixOf_of_walk (hm : 0 < m) (hmn : m ≤ n)
    (h : walk node (stripRight (m - 1) (n - 1)).1 (stripRight (m - 1) (n - 1)).2 a a path =
      some (old, new))
    (hsub : walked node (stripRight (m - 1) (n - 1)).1 (stripRight (m - 1) (n - 1)).2 a a path ⊆
      pairs) : PrefixOf node pairs n new m old := by
  -- an even prefix is a prefix of the level above; an odd one ends in a leaf of its own
  induction m using Nat.strongRecOn generalizing n with
  | ind m ih =>
    rcases Nat.mod_two_eq_zero_or_one m with h0 | h1
    · rw [stripRight_of_even hm h0 hmn] at h hsub
      exact (ih (m / 2) (by omega) (by omega) (by omega) h hsub).of_half h0 hmn
    · have hstrip : stripRight (m - 1) (n - 1) = (m - 1, n - 1) := by
        rw [stripRight, if_neg (by omega)]
      rw [hstrip] at h hsub
      have hprefix := (climbs_of_walk (by omega) h hsub).prefixOf rfl
      rwa [Nat.sub_add_cancel (by omega), Nat.sub_add_cancel hm] at hprefix

/-- **A proper prefix is shown by some consistency proof.** -/
theorem exists_walk_of_prefixOf (h : PrefixOf node pairs n top m old) (hm : 0 < m) (hmn : m < n) :
    ∃ a path, walk node (stripRight (m - 1) (n - 1)).1 (stripRight (m - 1) (n - 1)).2 a a path =
      some (old, top) := by
  induction m using Nat.strongRecOn generalizing n with
  | ind m ih =>
    rcases Nat.mod_two_eq_zero_or_one m with h0 | h1
    · rw [stripRight_of_even hm h0 hmn.le]
      exact ih (m / 2) (by omega) (h.half h0 (by omega)) (by omega) (by omega)
    · have hstrip : stripRight (m - 1) (n - 1) = (m - 1, n - 1) := by
        rw [stripRight, if_neg (by omega)]
      obtain ⟨a, hclimbs⟩ := h.exists_climbs h1 (Or.inl hmn)
      rw [hstrip]
      exact ⟨a, hclimbs.exists_walk⟩

end Walk

end Merkle
