import Mathlib.Data.List.Sort
import Mathlib.Order.Lattice
import Mathlib.Order.Defs.LinearOrder

/-!
# Ordered maps as strictly sorted entry lists

A finite map over a linearly ordered key type, stored as the list of its entries in increasing key
order. The order is part of the structure, so an entry list with a repeated or a misplaced key
cannot be built, and two maps with the same lookups are **equal** (`ext_get?`), not merely
equivalent. Iteration order is the entry list itself.

`BTreeSet κ` is the map into `Unit`.
-/

universe u v

/-- A finite map with its entries in strictly increasing key order. -/
structure BTreeMap (κ : Type u) (ν : Type v) [LinearOrder κ] where
  /-- The entries, in iteration order. -/
  entries : List (κ × ν)
  /-- Keys strictly increase along the entries. -/
  sorted : entries.Pairwise fun a b ↦ a.1 < b.1
  deriving DecidableEq

namespace BTreeMap

variable {κ : Type u} {ν : Type v} [LinearOrder κ]

/-! ### Lookup -/

/-- The value stored under a key. -/
def get? (m : BTreeMap κ ν) (k : κ) : Option ν :=
  (m.entries.find? fun e ↦ e.1 = k).map Prod.snd

instance : EmptyCollection (BTreeMap κ ν) := ⟨⟨[], List.Pairwise.nil⟩⟩

@[simp] theorem get?_empty (k : κ) : (∅ : BTreeMap κ ν).get? k = none := rfl

/-- In a sorted list a found key determines the entry. -/
private theorem find?_eq_some_iff_mem {l : List (κ × ν)}
    (hl : l.Pairwise fun a b ↦ a.1 < b.1) {k : κ} {v : ν} :
    (l.find? fun e ↦ e.1 = k).map Prod.snd = some v ↔ (k, v) ∈ l := by
  induction l with
  | nil => simp
  | cons e l ih =>
    obtain ⟨k', v'⟩ := e
    rw [List.pairwise_cons] at hl
    -- the keys ascend, so the key does not come again
    by_cases hk : k' = k
    · subst hk
      have hnot : (k', v) ∉ l := fun hmem ↦ (hl.1 (k', v) hmem).false
      simp [hnot, eq_comm]
    · simp [hk, ih hl.2, Ne.symm hk]

theorem get?_eq_some_iff (m : BTreeMap κ ν) {k : κ} {v : ν} :
    m.get? k = some v ↔ (k, v) ∈ m.entries :=
  find?_eq_some_iff_mem m.sorted

/-- **Extensionality.** A map is its lookups. -/
theorem ext_get? {m m' : BTreeMap κ ν} (h : ∀ k, m.get? k = m'.get? k) : m = m' := by
  have hmem : ∀ e, e ∈ m.entries ↔ e ∈ m'.entries := by
    rintro ⟨k, v⟩
    rw [← get?_eq_some_iff, ← get?_eq_some_iff, h]
  have hnodup : ∀ n : BTreeMap κ ν, n.entries.Nodup := fun n ↦
    n.sorted.imp fun hlt heq ↦ (heq ▸ hlt).false
  have hentries : m.entries = m'.entries :=
    ((List.perm_ext_iff_of_nodup (hnodup m) (hnodup m')).2 hmem).eq_of_pairwise
      (fun a b _ _ hab hba ↦ absurd hab (not_lt.2 hba.le)) m.sorted m'.sorted
  cases m
  cases m'
  congr

/-! ### Insertion -/

/-- Insertion into a sorted entry list, replacing the value of a key already there. -/
def insertEntry (k : κ) (v : ν) : List (κ × ν) → List (κ × ν)
  | [] => [(k, v)]
  | e :: l =>
    if k < e.1 then (k, v) :: e :: l
    else if k = e.1 then (k, v) :: l
    else e :: insertEntry k v l

theorem mem_insertEntry {k : κ} {v : ν} {e : κ × ν} :
    ∀ {l : List (κ × ν)}, e ∈ insertEntry k v l → e = (k, v) ∨ e ∈ l := by
  intro l
  induction l with
  | nil => simp [insertEntry]
  | cons e' l ih =>
    rw [insertEntry]
    split_ifs
    · simp
    · simp only [List.mem_cons]
      tauto
    · simp only [List.mem_cons]
      rintro (rfl | hmem)
      · exact Or.inr (Or.inl rfl)
      · exact (ih hmem).imp_right Or.inr

theorem insertEntry_sorted (k : κ) (v : ν) {l : List (κ × ν)}
    (hl : l.Pairwise fun a b ↦ a.1 < b.1) :
    (insertEntry k v l).Pairwise fun a b ↦ a.1 < b.1 := by
  induction l with
  | nil => simp [insertEntry]
  | cons e l ih =>
    rw [List.pairwise_cons] at hl
    rw [insertEntry]
    split_ifs with hlt heq
    · refine List.pairwise_cons.2 ⟨fun a ha ↦ ?_, List.pairwise_cons.2 hl⟩
      rcases List.mem_cons.1 ha with rfl | ha'
      · exact hlt
      · exact hlt.trans (hl.1 a ha')
    · exact List.pairwise_cons.2 ⟨fun a ha ↦ heq ▸ hl.1 a ha, hl.2⟩
    · refine List.pairwise_cons.2 ⟨fun a ha ↦ ?_, ih hl.2⟩
      rcases mem_insertEntry ha with rfl | ha'
      · exact lt_of_le_of_ne (not_lt.1 hlt) (Ne.symm heq)
      · exact hl.1 a ha'

/-- Insert a value under a key, replacing any value there. -/
def insert (m : BTreeMap κ ν) (k : κ) (v : ν) : BTreeMap κ ν :=
  ⟨insertEntry k v m.entries, insertEntry_sorted k v m.sorted⟩

/-- An insertion changes the value of its own key. -/
theorem get?_insert (m : BTreeMap κ ν) (k k' : κ) (v : ν) :
    (m.insert k v).get? k' = if k' = k then some v else m.get? k' := by
  show ((insertEntry k v m.entries).find? fun e ↦ e.1 = k').map Prod.snd = _
  rw [get?]
  induction m.entries with
  | nil => by_cases hk : k = k' <;> simp [insertEntry, hk, eq_comm]
  | cons e l ih =>
    rw [insertEntry]
    split_ifs with hlt heq <;> grind

/-! ### Filtering and pointwise update -/

/-- Keep the entries that satisfy a test. -/
def retain (m : BTreeMap κ ν) (p : κ → ν → Bool) : BTreeMap κ ν :=
  ⟨m.entries.filter fun e ↦ p e.1 e.2, m.sorted.filter _⟩

/-- What is retained is what satisfies the predicate. -/
theorem get?_retain (m : BTreeMap κ ν) (p : κ → ν → Bool) (k : κ) :
    (m.retain p).get? k = (m.get? k).filter (p k) := by
  ext v
  rw [get?_eq_some_iff, Option.filter_eq_some_iff, get?_eq_some_iff]
  simp [retain]

/-- Fold the entries of `n` into `m`: under each key of `n` store `f` of what is there. -/
def mergeWith (f : Option ν → ν → ν) (m n : BTreeMap κ ν) : BTreeMap κ ν :=
  n.entries.foldl (fun acc e ↦ acc.insert e.1 (f (acc.get? e.1) e.2)) m

/-- **A merge is pointwise**: each key of `n` is met once, and finds the value `m` had there. -/
theorem get?_mergeWith (f : Option ν → ν → ν) (m n : BTreeMap κ ν) (k : κ) :
    (mergeWith f m n).get? k =
      match n.get? k with
      | none => m.get? k
      | some v => some (f (m.get? k) v) := by
  obtain ⟨l, hl⟩ := n
  show (l.foldl (fun acc e ↦ acc.insert e.1 (f (acc.get? e.1) e.2)) m).get? k =
    match (l.find? fun e ↦ e.1 = k).map Prod.snd with
    | none => m.get? k
    | some v => some (f (m.get? k) v)
  induction l generalizing m with
  | nil => simp
  | cons e l ih =>
    rw [List.pairwise_cons] at hl
    rw [List.foldl_cons, ih _ hl.2]
    -- the keys of the list differ, so this one is merged once
    by_cases hk : e.1 = k
    · subst hk
      have hnone : (l.find? fun e' ↦ e'.1 = e.1) = none := by
        refine List.find?_eq_none.2 fun e' he' ↦ ?_
        simpa using (hl.1 e' he').ne'
      simp [hnone, get?_insert]
    · have hkk : k ≠ e.1 := Ne.symm hk
      simp [hk, get?_insert, hkk]

end BTreeMap

/-! ### Sets -/

/-- A finite set with its elements in increasing order. -/
abbrev BTreeSet (κ : Type u) [LinearOrder κ] := BTreeMap κ Unit

namespace BTreeSet

variable {κ : Type u} [LinearOrder κ]

/-- The elements in increasing order. -/
def iter (s : BTreeSet κ) : List κ := s.entries.map Prod.fst

/-- Add an element. -/
def insert (s : BTreeSet κ) (k : κ) : BTreeSet κ := BTreeMap.insert s k ()

/-- The elements of either set. -/
def union (s t : BTreeSet κ) : BTreeSet κ := BTreeMap.mergeWith (fun _ u ↦ u) s t

instance : Membership κ (BTreeSet κ) := ⟨fun s k ↦ BTreeMap.get? s k = some ()⟩

theorem mem_def {s : BTreeSet κ} {k : κ} : k ∈ s ↔ BTreeMap.get? s k = some () := Iff.rfl

instance (s : BTreeSet κ) (k : κ) : Decidable (k ∈ s) :=
  decidable_of_iff _ (mem_def (s := s) (k := k)).symm

theorem mem_iter {s : BTreeSet κ} {k : κ} : k ∈ s.iter ↔ k ∈ s := by
  rw [mem_def, BTreeMap.get?_eq_some_iff, iter, List.mem_map]
  exact ⟨fun ⟨e, he, hk⟩ ↦ hk ▸ he, fun h ↦ ⟨_, h, rfl⟩⟩

@[simp] theorem not_mem_empty (k : κ) : k ∉ (∅ : BTreeSet κ) := by simp [mem_def]

theorem mem_insert {s : BTreeSet κ} {k k' : κ} : k' ∈ s.insert k ↔ k' = k ∨ k' ∈ s := by
  rw [mem_def, insert, BTreeMap.get?_insert]
  by_cases hk : k' = k <;> simp [hk, mem_def]

theorem mem_union {s t : BTreeSet κ} {k : κ} : k ∈ s.union t ↔ k ∈ s ∨ k ∈ t := by
  rw [mem_def, union, BTreeMap.get?_mergeWith]
  rcases ht : BTreeMap.get? t k with - | u
  · simp [mem_def, ht]
  · simp [mem_def, ht]

/-- Sets with the same elements are equal. -/
theorem ext_mem {s t : BTreeSet κ} (h : ∀ k, k ∈ s ↔ k ∈ t) : s = t := by
  refine BTreeMap.ext_get? fun k ↦ ?_
  have hk := h k
  rw [mem_def, mem_def] at hk
  rcases hs : BTreeMap.get? s k with - | u <;> rcases ht : BTreeMap.get? t k with - | u' <;>
    simp_all

/-- Nothing is iterated first exactly when there is nothing. -/
theorem iter_head?_eq_none_iff {s : BTreeSet κ} : s.iter.head? = none ↔ ∀ k, k ∉ s := by
  rw [List.head?_eq_none_iff, List.eq_nil_iff_forall_not_mem]
  exact forall_congr' fun k ↦ not_congr mem_iter

end BTreeSet
