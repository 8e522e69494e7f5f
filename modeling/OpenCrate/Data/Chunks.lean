import OpenCrate.Data.Bytes
import Mathlib.Data.List.Basic

/-!
# Cutting a list into pieces

`pieces size l` cuts a list into pieces of one size, of which the last may be shorter; an empty list
has one empty piece. A list of frames whose lengths are equal up to the last one is a **tiling**:
where a frame stands in the joined list is found by multiplication. A list that is cut into pieces of
exactly one size is a list of vectors (`chunksExact?`).
-/

section Pieces

variable {α : Type}

/-- The pieces of a list, all of the size but the last. -/
def pieces (size : ℕ) (l : List α) : List (List α) :=
  if _h : 0 < size ∧ size < l.length then l.take size :: pieces size (l.drop size) else [l]
termination_by l.length
decreasing_by
  rw [List.length_drop]
  omega

/-- The number of pieces of `size` elements that `len` elements need. -/
def pieceCount (len size : ℕ) : ℕ := max 1 ((len + size - 1) / size)

variable {size : ℕ} {l : List α}

theorem pieces_of_le (h : l.length ≤ size) : pieces size l = [l] := by
  rw [pieces, dif_neg]
  omega

theorem pieces_of_lt (hsize : 0 < size) (h : size < l.length) :
    pieces size l = l.take size :: pieces size (l.drop size) := by
  rw [pieces, dif_pos ⟨hsize, h⟩]

theorem pieceCount_of_le {len : ℕ} (hsize : 0 < size) (h : len ≤ size) :
    pieceCount len size = 1 := by
  have hlt : (len + size - 1) / size < 2 := by
    rw [Nat.div_lt_iff_lt_mul hsize]
    omega
  rw [pieceCount]
  omega

theorem pieceCount_of_lt {len : ℕ} (hsize : 0 < size) (h : size < len) :
    pieceCount len size = pieceCount (len - size) size + 1 := by
  have hstep : (len + size - 1) / size = (len - size + size - 1) / size + 1 := by
    rw [← Nat.add_div_right _ hsize]
    congr 1
    omega
  have hpos : 1 ≤ (len - size + size - 1) / size := by
    rw [Nat.one_le_div_iff hsize]
    omega
  rw [pieceCount, pieceCount, hstep]
  omega

theorem pieceCount_pos (len size : ℕ) : 0 < pieceCount len size :=
  Nat.lt_of_lt_of_le Nat.one_pos (Nat.le_max_left _ _)

/-- The elements before the last piece fill their pieces. -/
theorem pieceCount_bounds (len : ℕ) (hsize : 0 < size) :
    (pieceCount len size - 1) * size ≤ len ∧ len ≤ pieceCount len size * size := by
  have hdiv := Nat.div_add_mod (len + size - 1) size
  have hmod := Nat.mod_lt (len + size - 1) hsize
  have hcomm : (len + size - 1) / size * size = size * ((len + size - 1) / size) := Nat.mul_comm _ _
  rcases Nat.eq_zero_or_pos ((len + size - 1) / size) with hzero | hpos
  · rw [pieceCount, hzero, Nat.max_eq_left (Nat.zero_le 1), Nat.sub_self, Nat.zero_mul, Nat.one_mul]
    rw [hzero] at hdiv
    omega
  · rw [pieceCount, Nat.max_eq_right hpos, Nat.sub_mul, Nat.one_mul, hcomm]
    omega

/-- The pieces are as many as the division says. -/
theorem length_pieces (hsize : 0 < size) (l : List α) :
    (pieces size l).length = pieceCount l.length size := by
  fun_induction pieces size l with
  | case1 l h ih =>
    rw [List.length_cons, ih, List.length_drop, pieceCount_of_lt hsize h.2]
  | case2 l h =>
    rw [List.length_singleton, pieceCount_of_le hsize (by omega)]

/-- The piece at a position. -/
theorem getElem?_pieces (hsize : 0 < size) {i : ℕ} (hi : i < (pieces size l).length) :
    (pieces size l)[i]? = some ((l.drop (i * size)).take size) := by
  fun_induction pieces size l generalizing i with
  | case1 l h ih =>
    rcases i with - | i
    · rw [List.getElem?_cons_zero, Nat.zero_mul, List.drop_zero]
    · rw [List.getElem?_cons_succ, ih (by simpa using hi), List.drop_drop, Nat.succ_mul,
        Nat.add_comm]
  | case2 l h =>
    obtain rfl : i = 0 := by simpa using hi
    rw [List.getElem?_cons_zero, Nat.zero_mul, List.drop_zero, List.take_of_length_le (by omega)]

/-- The pieces joined are the list. -/
theorem flatten_pieces (size : ℕ) (l : List α) : (pieces size l).flatten = l := by
  fun_induction pieces size l with
  | case1 l h ih => rw [List.flatten_cons, ih, List.take_append_drop]
  | case2 l h => rw [List.flatten_singleton]

end Pieces

/-! ### Tilings -/

section Tilings

variable {α : Type} {frames : List (List α)}

/-- A frame stands behind the frames before it. -/
theorem slice?_flatten {i : ℕ} {frame : List α} (h : frames[i]? = some frame) :
    slice? frames.flatten (frames.take i).flatten.length
      ((frames.take i).flatten.length + frame.length) = some frame := by
  obtain ⟨hi, hget⟩ := List.getElem?_eq_some_iff.mp h
  have hsplit : frames.flatten =
      (frames.take i).flatten ++ (frame ++ (frames.drop (i + 1)).flatten) := by
    rw [← hget, ← List.flatten_cons, ← List.drop_eq_getElem_cons hi, ← List.flatten_append,
      List.take_append_drop]
  rw [hsplit]
  exact slice?_append _ _ _

/-- Frames of one length take the multiple of it. -/
theorem length_flatten_of_forall {n : ℕ} (h : ∀ frame ∈ frames, frame.length = n) :
    frames.flatten.length = frames.length * n := by
  rw [List.length_flatten, List.map_congr_left h, List.map_const', List.sum_replicate_nat]

/-- The frames before the last one all have the length. -/
theorem length_flatten_take {n i : ℕ}
    (hfull : ∀ j f, j + 1 < frames.length → frames[j]? = some f → f.length = n)
    (hi : i < frames.length) : (frames.take i).flatten.length = i * n := by
  have hall : ∀ f ∈ frames.take i, f.length = n := by
    intro f hf
    obtain ⟨j, hj, rfl⟩ := List.mem_iff_getElem.mp hf
    rw [List.length_take] at hj
    refine hfull j _ (by omega) ?_
    rw [List.getElem_take, List.getElem?_eq_getElem]
  rw [length_flatten_of_forall hall, List.length_take, Nat.min_eq_left hi.le]

/-- **Where a frame of a tiling stands**: the frames before it all have the length. -/
theorem slice?_flatten_of_tiling {n i : ℕ} {frame : List α}
    (hfull : ∀ j f, j + 1 < frames.length → frames[j]? = some f → f.length = n)
    (h : frames[i]? = some frame) :
    slice? frames.flatten (i * n) (i * n + frame.length) = some frame := by
  obtain ⟨hi, -⟩ := List.getElem?_eq_some_iff.mp h
  rw [← length_flatten_take hfull hi]
  exact slice?_flatten h

end Tilings

section Exact

variable {α : Type} {n : ℕ}

/-- The first vectors of a list. -/
def takeVectors (n : ℕ) : ℕ → List α → Option (List (List.Vector α n))
  | 0, _ => some []
  | count + 1, l => do
    let v ← toVector? n (l.take n)
    let rest ← takeVectors n count (l.drop n)
    some (v :: rest)

/-- The vectors that make up a list, if its length is a multiple of theirs. -/
def chunksExact? (n : ℕ) (l : List α) : Option (List (List.Vector α n)) :=
  if l.length % n = 0 then takeVectors n (l.length / n) l else none

theorem length_flatMap_toList (vs : List (List.Vector α n)) :
    (vs.flatMap List.Vector.toList).length = vs.length * n := by
  rw [List.length_flatMap]
  simp

/-- A list is cut into vectors in one way. -/
theorem takeVectors_eq_some_iff {count : ℕ} {l : List α} {vs : List (List.Vector α n)}
    (hlen : l.length = count * n) :
    takeVectors n count l = some vs ↔ vs.length = count ∧ l = vs.flatMap List.Vector.toList := by
  induction count generalizing l vs with
  | zero =>
    rw [Nat.zero_mul, List.length_eq_zero_iff] at hlen
    subst hlen
    rw [takeVectors, List.length_eq_zero_iff]
    constructor
    · rintro ⟨⟩
      exact ⟨rfl, rfl⟩
    · rintro ⟨rfl, -⟩
      rfl
  | succ count ih =>
    rw [Nat.succ_mul] at hlen
    have htake : (l.take n).length = n := by
      rw [List.length_take]
      omega
    have hdrop : (l.drop n).length = count * n := by
      rw [List.length_drop]
      omega
    simp only [takeVectors, Option.bind_eq_bind, Option.bind_eq_some_iff, toVector?_eq_some_iff,
      ih hdrop, Option.some.injEq]
    constructor
    · rintro ⟨v, hv, vs, ⟨rfl, hvs⟩, rfl⟩
      refine ⟨rfl, ?_⟩
      rw [List.flatMap_cons, ← hv, ← hvs, List.take_append_drop]
    · rintro ⟨hcount, rfl⟩
      rcases vs with - | ⟨v, vs⟩
      · exact nomatch hcount
      · rw [List.flatMap_cons]
        refine ⟨v, List.take_left' v.toList_length, vs, ⟨Nat.succ.inj hcount, ?_⟩, rfl⟩
        exact List.drop_left' v.toList_length

/-- **Exactly the joined lists are cut.** -/
theorem chunksExact?_eq_some_iff (hn : 0 < n) {l : List α} {vs : List (List.Vector α n)} :
    chunksExact? n l = some vs ↔ l = vs.flatMap List.Vector.toList := by
  rw [chunksExact?]
  split_ifs with hmod
  · have hlen : l.length = l.length / n * n := (Nat.div_mul_cancel (Nat.dvd_of_mod_eq_zero hmod)).symm
    rw [takeVectors_eq_some_iff hlen]
    refine ⟨fun h ↦ h.2, fun h ↦ ⟨?_, h⟩⟩
    rw [h, length_flatMap_toList, Nat.mul_div_cancel _ hn]
  · refine ⟨nofun, ?_⟩
    rintro rfl
    rw [length_flatMap_toList, Nat.mul_mod_left] at hmod
    exact absurd rfl hmod

end Exact
