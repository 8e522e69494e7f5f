import OpenCrate.Data.MerkleLevels

/-!
# What the node on top says of the list

A level of the tree pins the level below it, pair by pair, so the node on top pins the whole list: two lists of
one length with one apex are one list, or two different pairs that were hashed in building their trees give one
node. The length has to be known, since a promoted node looks like a leaf.
-/

namespace Merkle

variable {α : Type} {node : α → α → α} {l l' : List α}

/-- A level pins the one below it. -/
theorem eq_or_collides_of_pairUp (hlen : l.length = l'.length) (h : pairUp node l = pairUp node l') :
    l = l' ∨ Collides (Function.uncurry node) (pairs l) (pairs l') := by
  induction l using pairUp.induct generalizing l' with
  | case1 => exact Or.inl (List.length_eq_zero_iff.mp hlen.symm).symm
  | case2 a =>
    obtain ⟨b, rfl⟩ := List.length_eq_one_iff.mp hlen.symm
    exact Or.inl h
  | case3 a b rest ih =>
    rcases l' with - | ⟨c, - | ⟨d, rest'⟩⟩
    · simp at hlen
    · simp at hlen
    · rw [pairUp_cons_cons, pairUp_cons_cons, List.cons.injEq] at h
      obtain ⟨hnode, hrest⟩ := h
      have hpair : (a, b) ∈ pairs (a :: b :: rest) := List.mem_cons_self
      have hpair' : (c, d) ∈ pairs (c :: d :: rest') := List.mem_cons_self
      rcases eq_or_collides (f := Function.uncurry node) hpair hpair' hnode with heq | hcol
      · obtain ⟨rfl, rfl⟩ := Prod.mk.inj heq
        rcases ih (by simpa using hlen) hrest with rfl | hcol
        · exact Or.inl rfl
        · exact Or.inr (hcol.mono (List.subset_cons_self _ _) (List.subset_cons_self _ _))
      · exact Or.inr hcol

/-- The pairs of a level are among those of the tree. -/
theorem pairs_subset_hashed (node : α → α → α) (l : List α) : pairs l ⊆ hashed node l := by
  rcases Nat.lt_or_ge 1 l.length with hl | hl
  · rw [hashed, if_pos hl]
    exact List.subset_append_left _ _
  · rcases l with - | ⟨a, - | ⟨b, rest⟩⟩
    · exact List.nil_subset _
    · exact List.nil_subset _
    · simp at hl

/-- The pairs above a level are among those of the tree. -/
theorem hashed_pairUp_subset (hl : 1 < l.length) : hashed node (pairUp node l) ⊆ hashed node l := by
  conv_rhs => rw [hashed, if_pos hl]
  exact List.subset_append_right _ _

/-- **The node on top pins the list**, if its length is known. -/
theorem eq_or_collides_of_apex (hlen : l.length = l'.length) (h : apex node l = apex node l') :
    l = l' ∨ Collides (Function.uncurry node) (hashed node l) (hashed node l') := by
  induction l using apex.induct node generalizing l' with
  | case1 l hl ih =>
    have hl' : 1 < l'.length := hlen ▸ hl
    rw [← apex_pairUp l, ← apex_pairUp l'] at h
    rcases ih (by simp only [length_pairUp, hlen]) h with hlevel | hcol
    · rcases eq_or_collides_of_pairUp hlen hlevel with heq | hcol
      · exact Or.inl heq
      · exact Or.inr (hcol.mono (pairs_subset_hashed node l) (pairs_subset_hashed node l'))
    · exact Or.inr (hcol.mono (hashed_pairUp_subset hl) (hashed_pairUp_subset hl'))
  | case2 l hl =>
    rw [apex, if_neg hl, apex, if_neg (hlen ▸ hl)] at h
    rcases l with - | ⟨a, - | ⟨b, rest⟩⟩
    · exact Or.inl (List.length_eq_zero_iff.mp hlen.symm).symm
    · obtain ⟨b, rfl⟩ := List.length_eq_one_iff.mp hlen.symm
      exact Or.inl (congrArg (fun x ↦ [x]) (Option.some.inj h))
    · simp at hl

end Merkle
