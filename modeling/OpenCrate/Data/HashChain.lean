import OpenCrate.Data.MerkleLevels

/-!
# Chains linked by hashes

A list of documents, newest first, in which each names the hash of the one before it and has the next
rank; the oldest has rank zero. The newest document determines the whole chain: whoever shows two
chains under one head shows a collision between them (`Linked.tail_eq`).
-/

namespace HashChain

open Merkle (Collides eq_or_collides)

variable {α δ : Type} (hash : α → δ) (rank : α → ℕ) (previous : α → δ)

/-- A chain, newest first. -/
inductive Linked : List α → Prop
  | first {a : α} (rank_eq : rank a = 0) : Linked [a]
  | next {a b : α} {l : List α} (rank_eq : rank b = rank a + 1) (previous_eq : previous b = hash a)
      (linked : Linked (a :: l)) : Linked (b :: a :: l)

variable {hash rank previous}

/-- The rank counts the documents before the head. -/
theorem Linked.rank_head {b : α} {l : List α} (h : Linked hash rank previous (b :: l)) :
    rank b = l.length := by
  induction l generalizing b with
  | nil =>
    cases h with
    | first hrank => exact hrank
  | cons a l ih =>
    cases h with
    | next hrank _ hlinked => rw [hrank, ih hlinked, List.length_cons]

/-- **A chain is determined by its head**, or a collision is among its documents. -/
theorem Linked.tail_eq {b : α} {l l' : List α} (h : Linked hash rank previous (b :: l))
    (h' : Linked hash rank previous (b :: l')) : l = l' ∨ Collides hash l l' := by
  have hlength : l.length = l'.length := h.rank_head.symm.trans h'.rank_head
  induction l generalizing b l' with
  | nil => exact .inl (List.length_eq_zero_iff.1 hlength.symm).symm
  | cons a l ih =>
    cases l' with
    | nil => exact absurd hlength (Nat.succ_ne_zero _)
    | cons a' l' =>
      cases h with
      | next _ hprevious hlinked =>
        cases h' with
        | next _ hprevious' hlinked' =>
          -- both name the hash of the document before them
          obtain rfl | hcollides := eq_or_collides (List.mem_cons_self (a := a) (l := l))
            (List.mem_cons_self (a := a') (l := l')) (hprevious.symm.trans hprevious')
          · obtain rfl | hcollides := ih hlinked hlinked' (Nat.succ.inj hlength)
            · exact .inl rfl
            · exact .inr (hcollides.mono (List.subset_cons_self _ _) (List.subset_cons_self _ _))
          · exact .inr hcollides

end HashChain
