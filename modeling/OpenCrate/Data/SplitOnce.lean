import Mathlib.Data.List.Infix

/-!
# Splitting a list at a pattern

`splitOnce?` splits a list where a pattern stands for the first time, and leaves the pattern out. The parts
and the pattern between them are the list again; and where the first item of the pattern does not occur,
neither does the pattern. Lists that are joined by a separator contain it if there are two of them, and no
other item than theirs besides.
-/

namespace List

variable {α : Type} [DecidableEq α]

/-- What stands before a pattern and what stands behind it, at the first place where there is one. -/
def splitOnce? (pattern : List α) : List α → Option (List α × List α)
  | [] => if pattern = [] then some ([], []) else none
  | a :: l =>
    if pattern <+: a :: l then some ([], (a :: l).drop pattern.length)
    else (splitOnce? pattern l).map fun (before, after) ↦ (a :: before, after)

variable {pattern l before after : List α} {a : α}

/-- **The parts make up the list**, with the pattern between them. -/
theorem eq_append_of_splitOnce? (h : pattern.splitOnce? l = some (before, after)) :
    l = before ++ (pattern ++ after) := by
  induction l generalizing before with
  | nil =>
    rw [splitOnce?] at h
    split_ifs at h with hpattern
    obtain ⟨rfl, rfl⟩ := Prod.mk.inj (Option.some.inj h)
    rw [hpattern, append_nil, append_nil]
  | cons b l ih =>
    rw [splitOnce?] at h
    split_ifs at h with hprefix
    · obtain ⟨rfl, rfl⟩ := Prod.mk.inj (Option.some.inj h)
      rw [nil_append]
      exact (prefix_iff_eq_append.mp hprefix).symm
    · obtain ⟨⟨before', after'⟩, hsplit, heq⟩ := Option.map_eq_some_iff.mp h
      obtain ⟨rfl, rfl⟩ := Prod.mk.inj heq
      rw [ih hsplit, cons_append]

/-- A list is split behind a part in which the first item of the pattern does not occur. -/
theorem splitOnce?_append (h : a ∉ before) :
    (a :: pattern).splitOnce? (before ++ (a :: pattern ++ after)) = some (before, after) := by
  induction before with
  | nil =>
    rw [nil_append, cons_append, splitOnce?, if_pos (cons_prefix_cons.mpr ⟨rfl, prefix_append _ _⟩),
      ← cons_append, drop_left]
  | cons b before ih =>
    obtain ⟨hb, hbefore⟩ := not_or.mp (mt mem_cons.mpr h)
    -- the pattern does not start here, since its first letter does not occur
    have hprefix : ¬a :: pattern <+: b :: (before ++ (a :: pattern ++ after)) :=
      fun hprefix ↦ hb (cons_prefix_cons.mp hprefix).1
    rw [cons_append, splitOnce?, if_neg hprefix, ih hbefore]
    rfl

/-- A list in which the first item of the pattern does not occur is not split. -/
theorem splitOnce?_eq_none (h : a ∉ l) : (a :: pattern).splitOnce? l = none := by
  induction l with
  | nil => rfl
  | cons b l ih =>
    obtain ⟨hb, hl⟩ := not_or.mp (mt mem_cons.mpr h)
    rw [splitOnce?, if_neg fun hprefix ↦ hb (cons_prefix_cons.mp hprefix).1, ih hl]
    rfl

/-! ### Lists joined by a separator -/

variable {sep : α} {ls : List (List α)}

omit [DecidableEq α] in
theorem not_mem_intercalate (ha : a ≠ sep) (h : ∀ l ∈ ls, a ∉ l) : a ∉ [sep].intercalate ls := by
  induction ls with
  | nil => exact not_mem_nil
  | cons l ls ih =>
    obtain ⟨hl, hls⟩ := forall_mem_cons.mp h
    rcases ls with - | ⟨l', ls⟩
    · rwa [intercalate_singleton]
    · rw [intercalate_cons_cons]
      simp only [mem_append, mem_singleton, not_or]
      exact ⟨⟨hl, ha⟩, ih hls⟩

omit [DecidableEq α] in
theorem mem_intercalate_cons_cons (l l' : List α) (ls : List (List α)) :
    sep ∈ [sep].intercalate (l :: l' :: ls) := by
  rw [intercalate_cons_cons]
  exact mem_append_left _ (mem_append_right _ (mem_singleton_self _))

end List
