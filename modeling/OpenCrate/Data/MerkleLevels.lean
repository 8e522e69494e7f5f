import Mathlib.Algebra.Group.Nat.Defs
import Mathlib.Data.List.Basic
import Mathlib.Tactic.Common

/-!
# Merkle trees built level by level

A binary hash tree over a list, with an arbitrary `node` function. Each level is obtained from the
one below by `pairUp`: neighbours are hashed together and an odd last node is **promoted**
unchanged. The tree of a list is the list of its levels, its apex is the single node on top.

An inclusion path (`auditPath`) is the list of siblings on the way up; `climb` recomputes the apex
from it, deriving the promoted levels from the length alone. Whoever makes `climb` reach the apex of
a list with anything but a genuine leaf and its path has hashed a pair that collides with one of the
pairs of the tree (`climb_sound`); the pair is among the finitely many that the two computations
hash (`hashed`, `climbed`), so a collision is always exhibited and never assumed away.
-/

namespace Merkle

variable {α β : Type} (node : α → α → α)

/-! ### Collisions -/

/-- Two different inputs with one output, one among `xs` and the other among `ys`. -/
def Collides (f : α → β) (xs ys : List α) : Prop :=
  ∃ x ∈ xs, ∃ y ∈ ys, x ≠ y ∧ f x = f y

theorem Collides.mono {f : α → β} {xs xs' ys ys' : List α} (h : Collides f xs ys)
    (hxs : xs ⊆ xs') (hys : ys ⊆ ys') : Collides f xs' ys' := by
  obtain ⟨x, hx, y, hy, hne, heq⟩ := h
  exact ⟨x, hxs hx, y, hys hy, hne, heq⟩

/-- Equal outputs of listed inputs: the inputs are equal, or they collide. -/
theorem eq_or_collides {f : α → β} {xs ys : List α} {x y : α} (hx : x ∈ xs) (hy : y ∈ ys)
    (h : f x = f y) : x = y ∨ Collides f xs ys := by
  by_cases hxy : x = y
  · exact Or.inl hxy
  · exact Or.inr ⟨x, hx, y, hy, hxy, h⟩

/-! ### One level up -/

/-- The next level: neighbours are hashed together, an odd last node is promoted. -/
def pairUp : List α → List α
  | [] => []
  | [a] => [a]
  | a :: b :: rest => node a b :: pairUp rest

@[simp] theorem pairUp_nil : pairUp node [] = [] := rfl

@[simp] theorem pairUp_singleton (a : α) : pairUp node [a] = [a] := rfl

@[simp] theorem pairUp_cons_cons (a b : α) (rest : List α) :
    pairUp node (a :: b :: rest) = node a b :: pairUp node rest := rfl

@[simp] theorem length_pairUp (l : List α) : (pairUp node l).length = (l.length + 1) / 2 := by
  induction l using pairUp.induct with
  | case1 => simp
  | case2 a => simp
  | case3 a b rest ih =>
    simp only [pairUp_cons_cons, List.length_cons, ih]
    omega

/-- Two nodes with their pair in place. -/
theorem getElem?_pairUp_of_pair {l : List α} {i : ℕ} {a b : α} (ha : l[2 * i]? = some a)
    (hb : l[2 * i + 1]? = some b) : (pairUp node l)[i]? = some (node a b) := by
  induction l using pairUp.induct generalizing i with
  | case1 => simp at ha
  | case2 x => simp at hb
  | case3 x y rest ih =>
    rcases i with - | i
    · simp only [Nat.mul_zero, List.getElem?_cons_zero, Option.some.injEq] at ha
      simp only [Nat.mul_zero, Nat.zero_add, List.getElem?_cons_succ, List.getElem?_cons_zero,
        Option.some.injEq] at hb
      simp [ha, hb]
    · exact ih ha hb

/-- A last node without a neighbour goes up unchanged. -/
theorem getElem?_pairUp_of_promoted {l : List α} {i : ℕ} {a : α} (ha : l[2 * i]? = some a)
    (hb : l[2 * i + 1]? = none) : (pairUp node l)[i]? = some a := by
  induction l using pairUp.induct generalizing i with
  | case1 => simp at ha
  | case2 x =>
    rcases i with - | i
    · exact ha
    · simp [Nat.mul_add] at ha
  | case3 x y rest ih =>
    rcases i with - | i
    · simp at hb
    · exact ih ha hb

/-- An even number of nodes is paired up on its own. -/
theorem pairUp_append {l r : List α} (h : l.length % 2 = 0) :
    pairUp node (l ++ r) = pairUp node l ++ pairUp node r := by
  induction l using pairUp.induct with
  | case1 => simp
  | case2 a => simp at h
  | case3 a b rest ih =>
    have hrest : rest.length % 2 = 0 := by
      simp only [List.length_cons] at h
      omega
    simp [ih hrest]

theorem pairUp_take (l : List α) (i : ℕ) :
    pairUp node (l.take (2 * i)) = (pairUp node l).take i := by
  rcases Nat.le_total l.length (2 * i) with hle | hge
  · have hlen : (pairUp node l).length ≤ i := by
      rw [length_pairUp]
      omega
    rw [List.take_of_length_le hle, List.take_of_length_le hlen]
  · have hlen : (l.take (2 * i)).length = 2 * i := by simp [hge]
    have hpair : (pairUp node (l.take (2 * i))).length = i := by
      rw [length_pairUp]
      omega
    conv_rhs => rw [← List.take_append_drop (2 * i) l, pairUp_append node (by omega)]
    exact (List.take_left' hpair).symm

theorem pairUp_drop (l : List α) (i : ℕ) :
    pairUp node (l.drop (2 * i)) = (pairUp node l).drop i := by
  rcases Nat.le_total l.length (2 * i) with hle | hge
  · have hlen : (pairUp node l).length ≤ i := by
      rw [length_pairUp]
      omega
    rw [List.drop_of_length_le hle, List.drop_of_length_le hlen, pairUp_nil]
  · have hlen : (l.take (2 * i)).length = 2 * i := by simp [hge]
    have hpair : (pairUp node (l.take (2 * i))).length = i := by
      rw [length_pairUp]
      omega
    conv_rhs => rw [← List.take_append_drop (2 * i) l, pairUp_append node (by omega)]
    exact (List.drop_left' hpair).symm

/-- The pairs hashed to obtain the next level. -/
def pairs : List α → List (α × α)
  | [] => []
  | [_] => []
  | a :: b :: rest => (a, b) :: pairs rest

theorem mem_pairs {l : List α} {i : ℕ} {a b : α} (ha : l[2 * i]? = some a)
    (hb : l[2 * i + 1]? = some b) : (a, b) ∈ pairs l := by
  induction l using pairs.induct generalizing i with
  | case1 => simp at ha
  | case2 x => simp at hb
  | case3 x y rest ih =>
    rcases i with - | i
    · simp only [Nat.mul_zero, List.getElem?_cons_zero, Option.some.injEq] at ha
      simp only [Nat.mul_zero, Nat.zero_add, List.getElem?_cons_succ, List.getElem?_cons_zero,
        Option.some.injEq] at hb
      simp [pairs, ha, hb]
    · exact List.mem_cons_of_mem _ (ih ha hb)

/-! ### The whole tree -/

/-- All levels, from the list itself up to the single node on top. -/
def levels (l : List α) : List (List α) :=
  if 1 < l.length then l :: levels (pairUp node l) else [l]
termination_by l.length
decreasing_by simp only [length_pairUp]; omega

/-- The node on top. -/
def apex (l : List α) : Option α :=
  if 1 < l.length then apex (pairUp node l) else l.head?
termination_by l.length
decreasing_by simp only [length_pairUp]; omega

/-- The pairs hashed in building the tree. -/
def hashed (l : List α) : List (α × α) :=
  if 1 < l.length then pairs l ++ hashed (pairUp node l) else []
termination_by l.length
decreasing_by simp only [length_pairUp]; omega

variable {node}

theorem pairUp_of_length_le_one {l : List α} (h : l.length ≤ 1) : pairUp node l = l := by
  rcases l with - | ⟨a, - | ⟨b, rest⟩⟩
  · rfl
  · rfl
  · simp at h

@[simp] theorem apex_singleton (a : α) : apex node [a] = some a := by
  rw [apex]
  simp

/-- Going up a level does not change the apex. -/
theorem apex_pairUp (l : List α) : apex node (pairUp node l) = apex node l := by
  rcases Nat.lt_or_ge 1 l.length with h | h
  · conv_rhs => rw [apex, if_pos h]
  · rw [pairUp_of_length_le_one h]

theorem isSome_apex (node : α → α → α) {l : List α} (h : l ≠ []) : (apex node l).isSome := by
  induction l using apex.induct node with
  | case1 l hl ih =>
    rw [apex, if_pos hl]
    refine ih fun hnil ↦ ?_
    have := congrArg List.length hnil
    simp only [length_pairUp, List.length_nil] at this
    omega
  | case2 l hl =>
    rw [apex, if_neg hl]
    simpa [List.isSome_head?] using h

theorem head?_levels (node : α → α → α) (l : List α) : (levels node l).head? = some l := by
  rw [levels]
  split <;> rfl

/-- The single node of the last level is the apex. -/
theorem getLast?_levels_head? (l : List α) :
    ((levels node l).getLast?.bind List.head?) = apex node l := by
  induction l using apex.induct node with
  | case1 l hl ih =>
    rw [levels, if_pos hl, apex, if_pos hl, ← ih]
    rcases hlv : levels node (pairUp node l) with - | ⟨x, xs⟩
    · have := head?_levels node (pairUp node l)
      simp [hlv] at this
    · simp
  | case2 l hl =>
    rw [levels, if_neg hl, apex, if_neg hl]
    rfl

/-! ### Inclusion paths -/

/-- The position of the other member of a node's pair. -/
def sibling (i : ℕ) : ℕ := if i % 2 = 0 then i + 1 else i - 1

/-- The siblings on the way from position `i` to the apex; a promoted node has none. -/
def auditPath (node : α → α → α) (l : List α) (i : ℕ) : List α :=
  if 1 < l.length then l[sibling i]?.toList ++ auditPath node (pairUp node l) (i / 2) else []
termination_by l.length
decreasing_by simp only [length_pairUp]; omega

theorem auditPath_step {l : List α} {i : ℕ} (hi : i < l.length) :
    auditPath node l i = l[sibling i]?.toList ++ auditPath node (pairUp node l) (i / 2) := by
  rcases Nat.lt_or_ge 1 l.length with h | h
  · rw [auditPath, if_pos h]
  · obtain rfl : i = 0 := by omega
    have hnone : l[sibling 0]? = none := by simp [sibling, h]
    rw [pairUp_of_length_le_one h, auditPath, if_neg (by omega), hnone]
    rfl

/-- A path has at most one node for each level. -/
theorem length_auditPath_le (node : α → α → α) {l : List α} (n i : ℕ) (h : l.length ≤ 2 ^ n) :
    (auditPath node l i).length ≤ n := by
  induction n generalizing l i with
  | zero =>
    rw [auditPath, if_neg (by omega)]
    exact Nat.le_refl 0
  | succ n ih =>
    rw [auditPath]
    split_ifs with hl
    · have hup : (pairUp node l).length ≤ 2 ^ n := by
        rw [length_pairUp]
        omega
      have hsibling : l[sibling i]?.toList.length ≤ 1 := by
        rcases l[sibling i]? with - | a
        · exact Nat.zero_le 1
        · exact Nat.le_refl 1
      have := ih (i / 2) hup
      rw [List.length_append]
      omega
    · exact Nat.zero_le _

/-- Whether node `i` of a level of length `len` has no neighbour. -/
def Promoted (len i : ℕ) : Prop := len % 2 = 1 ∧ i + 1 = len

instance (len i : ℕ) : Decidable (Promoted len i) := inferInstanceAs (Decidable (_ ∧ _))

/-- The pair of a node at position `i` and its sibling, left member first. -/
def orient (i : ℕ) (a s : α) : α × α := if i % 2 = 0 then (a, s) else (s, a)

theorem orient_injective {i : ℕ} {a s a' s' : α} (h : orient i a s = orient i a' s') :
    a = a' ∧ s = s' := by
  rw [orient, orient] at h
  split at h
  · exact Prod.mk.inj h
  · exact (Prod.mk.inj h).symm

/-- A step up: the node is hashed with its sibling, or it is promoted. -/
theorem pairUp_cases (node : α → α → α) {l : List α} {i : ℕ} (hi : i < l.length) :
    (∃ a s, ¬Promoted l.length i ∧ l[i]? = some a ∧ l[sibling i]? = some s ∧
        (pairUp node l)[i / 2]? = some (Function.uncurry node (orient i a s)) ∧
        orient i a s ∈ pairs l) ∨
      ∃ a, Promoted l.length i ∧ l[i]? = some a ∧ l[sibling i]? = none ∧
        (pairUp node l)[i / 2]? = some a := by
  have ha : l[i]? = some l[i] := List.getElem?_eq_getElem hi
  simp only [Promoted, sibling, orient]
  -- an even node has its sibling on the right, if there is one
  rcases Nat.mod_two_eq_zero_or_one i with h0 | h1
  · simp only [h0, if_true]
    obtain ⟨j, rfl⟩ : ∃ j, i = 2 * j := ⟨i / 2, by omega⟩
    rw [Nat.mul_div_cancel_left j Nat.two_pos]
    rcases Nat.lt_or_ge (2 * j + 1) l.length with hb | hb
    · have hb' : l[2 * j + 1]? = some l[2 * j + 1] := List.getElem?_eq_getElem hb
      exact Or.inl ⟨_, _, by omega, ha, hb', getElem?_pairUp_of_pair node ha hb',
        mem_pairs ha hb'⟩
    · have hb' : l[2 * j + 1]? = none := List.getElem?_eq_none hb
      exact Or.inr ⟨_, by omega, ha, hb', getElem?_pairUp_of_promoted node ha hb'⟩
  · simp only [h1, Nat.one_ne_zero, if_false]
    obtain ⟨j, rfl⟩ : ∃ j, i = 2 * j + 1 := ⟨i / 2, by omega⟩
    have hj : (2 * j + 1) / 2 = j := by omega
    have hb : l[2 * j]? = some l[2 * j] := List.getElem?_eq_getElem (by omega)
    rw [hj, Nat.add_sub_cancel]
    exact Or.inl ⟨_, _, by omega, ha, hb, getElem?_pairUp_of_pair node hb ha, mem_pairs hb ha⟩

/-- Two pairs with the parent at one position: the pairs agree, or they collide. -/
theorem eq_or_collides_of_parent {l : List α} {k : ℕ} {p q : α × α} {above qs : List (α × α)}
    (hp : (pairUp node l)[k]? = some (Function.uncurry node p))
    (hq : (pairUp node l)[k]? = some (Function.uncurry node q)) (hmem : p ∈ pairs l)
    (hmem' : q ∈ qs) : p = q ∨ Collides (Function.uncurry node) (pairs l ++ above) qs :=
  eq_or_collides (List.mem_append_left above hmem) hmem' (Option.some_inj.mp (hp.symm.trans hq))

/-! ### Recomputing the apex from a path -/

section Climb

variable (node)

/-- Climb from position `i` of a level of `len` nodes, taking a sibling from the path at every level
where the node is not promoted. The rest of the path is returned. -/
def climb (len i : ℕ) (acc : α) (path : List α) : Option (α × List α) :=
  if 1 < len then
    if Promoted len i then climb ((len + 1) / 2) (i / 2) acc path
    else
      match path with
      | [] => none
      | s :: path =>
        climb ((len + 1) / 2) (i / 2) (Function.uncurry node (orient i acc s)) path
  else some (acc, path)
termination_by len

/-- The pairs hashed by a climb. -/
def climbed (len i : ℕ) (acc : α) (path : List α) : List (α × α) :=
  if 1 < len then
    if Promoted len i then climbed ((len + 1) / 2) (i / 2) acc path
    else
      match path with
      | [] => []
      | s :: path =>
        orient i acc s ::
          climbed ((len + 1) / 2) (i / 2) (Function.uncurry node (orient i acc s)) path
  else []
termination_by len

end Climb

/-- What a climb leaves of the path is its end. -/
theorem climb_suffix {len i : ℕ} {a top : α} {path rest : List α}
    (h : climb node len i a path = some (top, rest)) : rest <:+ path := by
  induction len, i, a, path using climb.induct node with
  | case1 len i a path hlen hp ih =>
    rw [climb.eq_def, if_pos hlen, if_pos hp] at h
    exact ih h
  | case2 len i a hlen hp =>
    rw [climb.eq_def, if_pos hlen, if_neg hp] at h
    exact absurd h (by simp)
  | case3 len i a hlen hp s path ih =>
    rw [climb.eq_def, if_pos hlen, if_neg hp] at h
    exact (ih h).trans (List.suffix_cons s path)
  | case4 len i a path hlen =>
    rw [climb.eq_def, if_neg hlen] at h
    obtain ⟨-, rfl⟩ := Prod.mk.inj (Option.some_inj.mp h)
    exact List.suffix_rfl

/-- **Completeness.** The path of a node leads to the apex and is used up. -/
theorem climb_auditPath (node : α → α → α) {l : List α} {i : ℕ} {a : α} (ha : l[i]? = some a) (rest : List α) :
    (climb node l.length i a (auditPath node l i ++ rest)) =
      (apex node l).map fun top ↦ (top, rest) := by
  -- by induction on the levels; the climb and the path pair up the same nodes
  induction l using apex.induct node generalizing i a with
  | case1 l hl ih =>
    have hi : i < l.length := (List.getElem?_eq_some_iff.mp ha).1
    rw [apex, if_pos hl, auditPath_step hi, climb.eq_def, if_pos hl, ← length_pairUp node]
    rcases pairUp_cases node hi with ⟨x, s, hp, hx, hs, hup, -⟩ | ⟨x, hp, hx, hs, hup⟩
    · obtain rfl : a = x := Option.some_inj.mp (ha.symm.trans hx)
      rw [if_neg hp, hs]
      exact ih hup
    · obtain rfl : a = x := Option.some_inj.mp (ha.symm.trans hx)
      rw [if_pos hp, hs]
      exact ih hup
  | case2 l hl =>
    obtain ⟨hi, -⟩ := List.getElem?_eq_some_iff.mp ha
    obtain ⟨b, rfl⟩ : ∃ b, l = [b] := List.length_eq_one_iff.mp (by omega)
    obtain rfl : i = 0 := by simpa using hi
    obtain rfl : b = a := by simpa using ha
    rw [climb.eq_def, if_neg hl, auditPath, if_neg hl, apex_singleton]
    rfl

/-- **Soundness.** A climb that ends in the apex of `l` started from a node of `l` and used its
path, or it hashed a pair that collides with a pair of the tree. -/
theorem climb_sound {l : List α} {i : ℕ} {a top : α} {path rest : List α} (hi : i < l.length)
    (htop : apex node l = some top) (h : climb node l.length i a path = some (top, rest)) :
    (l[i]? = some a ∧ path = auditPath node l i ++ rest) ∨
      Collides (Function.uncurry node) (hashed node l) (climbed node l.length i a path) := by
  induction l using apex.induct node generalizing i a path with
  | case1 l hl ih =>
    have hi' : i / 2 < (pairUp node l).length := by
      rw [length_pairUp]
      omega
    rw [apex, if_pos hl] at htop
    rw [climb.eq_def, if_pos hl, ← length_pairUp node] at h
    rw [auditPath_step hi, climbed.eq_def, if_pos hl, ← length_pairUp node, hashed, if_pos hl]
    rcases pairUp_cases node hi with ⟨x, s, hp, hx, hs, hup, hmem⟩ | ⟨x, hp, hx, hs, hup⟩
    · -- the climb has hashed a pair whose parent is a node of the next level
      rw [if_neg hp] at h ⊢
      rcases path with - | ⟨s', path⟩
      · exact absurd h (by simp)
      rcases ih hi' htop h with ⟨hget, hpath⟩ | hcol
      · rcases eq_or_collides_of_parent hup hget hmem List.mem_cons_self with heq | hcol
        · obtain ⟨rfl, rfl⟩ := orient_injective heq
          exact Or.inl ⟨hx, by rw [hs, hpath]; rfl⟩
        · exact Or.inr hcol
      · exact Or.inr (hcol.mono (List.subset_append_right _ _) (List.subset_cons_self _ _))
    · rw [if_pos hp] at h ⊢
      rcases ih hi' htop h with ⟨hget, hpath⟩ | hcol
      · obtain rfl : x = a := Option.some_inj.mp (hup.symm.trans hget)
        exact Or.inl ⟨hx, by rw [hs, hpath]; rfl⟩
      · exact Or.inr (hcol.mono (List.subset_append_right _ _) (List.Subset.refl _))
  | case2 l hl =>
    obtain ⟨b, rfl⟩ : ∃ b, l = [b] := List.length_eq_one_iff.mp (by omega)
    obtain rfl : i = 0 := by simpa using hi
    rw [climb.eq_def, if_neg hl] at h
    obtain ⟨rfl, rfl⟩ := Prod.mk.inj (Option.some_inj.mp h)
    refine Or.inl ⟨by simpa using htop, ?_⟩
    rw [auditPath, if_neg hl, List.nil_append]

end Merkle
