import Mathlib.Data.List.Basic
import Mathlib.Data.List.Induction
import Mathlib.Data.List.TakeDrop
import Mathlib.Data.Nat.Basic
import Mathlib.Order.Basic

/-!
# Dot segments of a path

A path is a list of segments, and a segment stays (`.`), climbs (`..`) or names a place below. Resolving
removes the first two kinds from left to right: a stay does nothing, a climb removes the last place
reached, and above the first place there is nothing to climb to. A path that does not end in a name ends
in a slash, which is an empty segment at its end; so does the path of no segment, the root.

Whether a longer path resolves below a shorter one is settled by a walk over the segments it adds
(`trail`). The walk counts the places of the shorter path that are still beneath it: a climb takes one
away, a name that is the next of them gives it back, and any other name goes beyond, from where it must
first be climbed back (`prefix_append_iff`). A walk that never climbs above where it begins keeps all of
them (`StaysBelow.staysWithin`).
-/

namespace OpenCrate

/-- A segment of a path. -/
inductive Segment (α : Type) where
  | stay
  | climb
  | name (place : α)
  deriving DecidableEq

namespace Segment

variable {α : Type}

/-- The places reached after one more segment. -/
def step (places : List α) : Segment α → List α
  | stay => places
  | climb => places.dropLast
  | name place => places ++ [place]

/-- The places that a list of segments reaches. -/
def places (segments : List (Segment α)) : List α :=
  segments.foldl step []

/-- What is left behind the places reached: nothing after a name, and a slash otherwise. -/
def ending (empty : α) (segments : List (Segment α)) : List α :=
  match segments.getLast? with
  | some (name _) => []
  | _ => [empty]

/-- The resolved path. -/
def resolve (empty : α) (segments : List (Segment α)) : List α :=
  places segments ++ ending empty segments

/-- The last segment is resolved last. -/
theorem places_concat (segments : List (Segment α)) (s : Segment α) :
    places (segments ++ [s]) = step (places segments) s := by
  rw [places, places, List.foldl_append]
  rfl

/-! ### A slash at the end -/

section DropTrailing

variable {β : Type} [DecidableEq β]

/-- A list without its last element, where that is the given one. -/
def dropTrailing (b : β) (l : List β) : List β :=
  if l.getLast? = some b then l.dropLast else l

theorem dropTrailing_concat_self (b : β) (l : List β) : dropTrailing b (l ++ [b]) = l := by
  rw [dropTrailing, if_pos List.getLast?_concat, List.dropLast_concat]

theorem dropTrailing_concat_of_ne {b c : β} (h : c ≠ b) (l : List β) :
    dropTrailing b (l ++ [c]) = l ++ [c] := by
  rw [dropTrailing, List.getLast?_concat, if_neg fun heq ↦ h (Option.some.inj heq)]

/-- Only the end of a list is trimmed. -/
theorem dropTrailing_append (b : β) (l : List β) {l' : List β} (h : l' ≠ []) :
    dropTrailing b (l ++ l') = l ++ dropTrailing b l' := by
  obtain ⟨init, c, rfl⟩ := (List.eq_nil_or_concat' l').resolve_left h
  rw [← List.append_assoc]
  by_cases hc : c = b
  · rw [hc, dropTrailing_concat_self, dropTrailing_concat_self]
  · rw [dropTrailing_concat_of_ne hc, dropTrailing_concat_of_ne hc, List.append_assoc]

theorem dropTrailing_isPrefix (b : β) (l : List β) : dropTrailing b l <+: l := by
  rw [dropTrailing]
  split
  · exact List.dropLast_prefix l
  · exact List.prefix_rfl

end DropTrailing

/-- **Without a slash at its end, a resolved path is the places it reaches**, and an empty name at its end
is such a slash. -/
theorem dropTrailing_resolve [DecidableEq α] (empty : α) (segments : List (Segment α)) :
    dropTrailing empty (resolve empty segments) = places (dropTrailing (name empty) segments) := by
  -- by cases on the last segment: it decides how the path ends
  induction segments using List.reverseRecOn with
  | nil => exact dropTrailing_concat_self empty []
  | append_singleton segments s _ =>
    rw [resolve, ending, List.getLast?_concat, places_concat]
    cases s with
    | stay =>
      rw [dropTrailing_concat_of_ne (c := stay) (by simp), places_concat]
      exact dropTrailing_concat_self empty _
    | climb =>
      rw [dropTrailing_concat_of_ne (c := climb) (by simp), places_concat]
      exact dropTrailing_concat_self empty _
    | name place =>
      rw [List.append_nil, step]
      by_cases hplace : place = empty
      · rw [hplace, dropTrailing_concat_self, dropTrailing_concat_self]
      · rw [dropTrailing_concat_of_ne hplace, dropTrailing_concat_of_ne (by simpa using hplace),
          places_concat, step]

theorem places_dropTrailing_isPrefix [DecidableEq α] (empty : α) (segments : List (Segment α)) :
    places (dropTrailing (name empty) segments) <+: places segments := by
  induction segments using List.reverseRecOn with
  | nil => exact List.prefix_rfl
  | append_singleton segments s _ =>
    by_cases hs : s = name empty
    · rw [hs, dropTrailing_concat_self, places_concat]
      exact List.prefix_append _ _
    · simp only [dropTrailing_concat_of_ne hs, List.prefix_rfl]

/-! ### Segments that never climb above where they begin -/

/-- Segments that never climb above where they begin, read from some places below it. -/
def StaysBelow : ℕ → List (Segment α) → Prop
  | _, [] => True
  | depth, stay :: rest => StaysBelow depth rest
  | 0, climb :: _ => False
  | depth + 1, climb :: rest => StaysBelow depth rest
  | depth, name _ :: rest => StaysBelow (depth + 1) rest

namespace StaysBelow

theorem of_append {depth : ℕ} {l l' : List (Segment α)} (h : StaysBelow depth (l ++ l')) :
    StaysBelow depth l := by
  fun_induction StaysBelow depth l with
  | case1 => trivial
  | case2 depth rest ih => exact ih h
  | case3 rest => exact h
  | case4 depth rest ih => exact ih h
  | case5 depth place rest ih => exact ih h

theorem of_names (depth : ℕ) (l : List α) : StaysBelow depth (l.map name) := by
  induction l generalizing depth with
  | nil => trivial
  | cons place l ih => exact ih (depth + 1)

end StaysBelow

/-! ### The walk behind a path -/

/-- How far a walk has got: the places it has kept beneath it, and those it has reached beyond them. -/
structure Trail where
  kept : ℕ
  beyond : ℕ

/-- What a walk counts, in the places reached: those kept are the first, and the rest parts from them. -/
structure Trail.Counts (start : List α) (t : Trail) (reached rest : List α) : Prop where
  kept_le : t.kept ≤ start.length
  reached_eq : reached = start.take t.kept ++ rest
  length_rest : rest.length = t.beyond
  parts : ∀ place ∈ rest.head?, start[t.kept]? ≠ some place

/-- What lies among the first places has been reached as far as it has been kept. -/
theorem Trail.Counts.prefix_iff {start reached rest l : List α} {t : Trail}
    (h : t.Counts start reached rest) (hl : l <+: start) :
    l <+: reached ↔ l.length ≤ t.kept := by
  obtain ⟨hkept, hreached, hlength, hparts⟩ := h
  have htake : (start.take t.kept).length = t.kept := by
    rw [List.length_take, Nat.min_eq_left hkept]
  constructor
  · intro hprefix
    by_contra hlt
    have hlt : t.kept < l.length := Nat.lt_of_not_le hlt
    -- the place behind those kept is the same in all three, and the rest begins with another
    have hstart := hl.getElem hlt
    have hplace := hprefix.getElem hlt
    have hbelow := hlt.trans_le hprefix.length_le
    simp only [hreached] at hplace hbelow
    rw [List.getElem_append_right htake.le] at hplace
    cases rest with
    | nil =>
      rw [List.append_nil, htake] at hbelow
      exact lt_irrefl _ hbelow
    | cons head tail =>
      refine hparts head rfl ?_
      rw [List.getElem?_eq_getElem (hlt.trans_le hl.length_le), ← hstart, hplace]
      simp [htake]
  · intro hle
    rw [List.prefix_iff_eq_take.mp hl, hreached]
    exact (List.take_prefix_take_left hle).trans (List.prefix_append _ _)

variable [DecidableEq α] {empty : α} {above behind : List (Segment α)}

/-- One more segment of a walk that has begun at some places. -/
def Trail.step (start : List α) (t : Trail) : Segment α → Trail
  | stay => t
  | climb => if t.beyond = 0 then ⟨t.kept - 1, 0⟩ else ⟨t.kept, t.beyond - 1⟩
  | name place =>
    if t.beyond = 0 ∧ start[t.kept]? = some place then ⟨t.kept + 1, 0⟩ else ⟨t.kept, t.beyond + 1⟩

/-- The walk over a list of segments. -/
def trail (start : List α) (segments : List (Segment α)) : Trail :=
  segments.foldl (Trail.step start) ⟨start.length, 0⟩

/-- **A step of the walk counts a segment.** -/
theorem Trail.Counts.step {start reached rest : List α} {t : Trail} (h : t.Counts start reached rest)
    (s : Segment α) :
    ∃ rest', (t.step start s).Counts start (Segment.step reached s) rest' := by
  obtain ⟨hkept, hreached, hlength, hparts⟩ := h
  cases s with
  | stay => exact ⟨rest, hkept, hreached, hlength, hparts⟩
  | climb =>
    rw [Trail.step]
    by_cases hbeyond : t.beyond = 0
    · -- the climb takes away the last of the places kept
      rw [if_pos hbeyond]
      have hnil : rest = [] := List.eq_nil_of_length_eq_zero (hlength.trans hbeyond)
      refine ⟨[], (Nat.sub_le _ _).trans hkept, ?_, rfl, nofun⟩
      rw [Segment.step, hreached, hnil, List.append_nil, List.append_nil, List.dropLast_eq_take,
        List.take_take, List.length_take, Nat.min_eq_left hkept, Nat.min_eq_left (Nat.sub_le _ _)]
    · rw [if_neg hbeyond]
      have hne : rest ≠ [] := by
        intro hnil
        rw [hnil] at hlength
        exact hbeyond hlength.symm
      refine ⟨rest.dropLast, hkept, ?_, ?_, ?_⟩
      · rw [Segment.step, hreached, List.dropLast_append_of_ne_nil hne]
      · rw [List.length_dropLast, hlength]
      · intro place hplace
        refine hparts place ?_
        rw [Option.mem_def, List.head?_eq_some_iff] at hplace ⊢
        obtain ⟨tail, htail⟩ := hplace
        obtain ⟨suffix, hsuffix⟩ := List.dropLast_prefix rest
        exact ⟨tail ++ suffix, by rw [← hsuffix, htail, List.cons_append]⟩
  | name place =>
    rw [Trail.step]
    by_cases hback : t.beyond = 0 ∧ start[t.kept]? = some place
    · -- the name gives back the next of the places it had climbed out of
      rw [if_pos hback]
      obtain ⟨hbeyond, hplace⟩ := hback
      have hnil : rest = [] := List.eq_nil_of_length_eq_zero (hlength.trans hbeyond)
      obtain ⟨hlt, -⟩ := List.getElem?_eq_some_iff.mp hplace
      refine ⟨[], hlt, ?_, rfl, nofun⟩
      rw [Segment.step, hreached, hnil, List.append_nil, List.append_nil, List.take_add_one, hplace]
      rfl
    · rw [if_neg hback]
      refine ⟨rest ++ [place], hkept, ?_, ?_, ?_⟩
      · rw [Segment.step, hreached, List.append_assoc]
      · rw [List.length_append, hlength, List.length_singleton]
      · intro first hfirst hkeeps
        cases rest with
        | nil =>
          obtain rfl := Option.some.inj hfirst
          exact hback ⟨hlength.symm, hkeeps⟩
        | cons head tail => exact hparts first hfirst hkeeps

/-- The walk over the segments behind a path counts what the longer path reaches. -/
theorem exists_counts_trail (above behind : List (Segment α)) :
    ∃ rest, (trail (places above) behind).Counts (places above) (places (above ++ behind)) rest := by
  induction behind using List.reverseRecOn with
  | nil => exact ⟨[], le_rfl, by simp [trail], rfl, nofun⟩
  | append_singleton behind s ih =>
    obtain ⟨rest, hrest⟩ := ih
    rw [← List.append_assoc, places_concat, trail, List.foldl_append]
    exact hrest.step s

/-! ### Paths below a path -/

/-- Segments behind a path stay within it when their walk ends with all of its places kept. -/
def StaysWithin (empty : α) (above behind : List (Segment α)) : Prop :=
  (places (dropTrailing (name empty) above)).length ≤
    (trail (places above) (dropTrailing (name empty) behind)).kept

instance : Decidable (StaysWithin empty above behind) := Nat.decLe _ _

/-- **A path resolves below its beginning exactly when the segments it adds stay within.** -/
theorem prefix_append_iff :
    dropTrailing empty (resolve empty above) <+: dropTrailing empty (resolve empty (above ++ behind)) ↔
      StaysWithin empty above behind := by
  rw [dropTrailing_resolve, dropTrailing_resolve, StaysWithin]
  have hprefix := places_dropTrailing_isPrefix empty above
  by_cases hnil : behind = []
  · rw [hnil, List.append_nil]
    exact ⟨fun _ ↦ hprefix.length_le, fun _ ↦ List.prefix_rfl⟩
  · obtain ⟨rest, hrest⟩ := exists_counts_trail above (dropTrailing (name empty) behind)
    rw [dropTrailing_append _ _ hnil]
    exact hrest.prefix_iff hprefix

namespace StaysBelow

/-- **What never climbs above its beginning keeps every place of it.** -/
theorem kept_eq {start : List α} {segments : List (Segment α)} {t : Trail}
    (h : StaysBelow t.beyond segments) (hkept : t.kept = start.length) :
    (segments.foldl (Trail.step start) t).kept = start.length := by
  induction segments generalizing t with
  | nil => exact hkept
  | cons s segments ih =>
    rw [List.foldl_cons]
    cases s with
    | stay => exact ih h hkept
    | climb =>
      obtain ⟨kept, beyond⟩ := t
      cases beyond with
      | zero => exact h.elim
      | succ beyond => exact ih h hkept
    | name place =>
      -- behind the last of the places no name gives one back
      have hend : ¬(t.beyond = 0 ∧ start[t.kept]? = some place) := by
        rw [hkept, List.getElem?_length]
        simp
      rw [Trail.step, if_neg hend]
      exact ih h hkept

/-- Segments that stay below the start stay within it. -/
theorem staysWithin (h : StaysBelow 0 behind) : StaysWithin empty above behind := by
  obtain ⟨tail, htail⟩ := dropTrailing_isPrefix (name empty) behind
  rw [← htail] at h
  rw [StaysWithin, trail, h.of_append.kept_eq rfl]
  exact (places_dropTrailing_isPrefix empty above).length_le

end StaysBelow

end Segment

end OpenCrate
