import OpenCrate.Format.TlvCodec
import Mathlib.Data.List.Sort

/-!
# Records over TLV

A record is a document whose tags name the parts of one value. Its reader is a loop that puts each
field into its slot and treats every other tag as its range says: refused if critical, skipped if
optional. `RecordStep known step` says that a loop is of this form, and nothing else is needed to see
that it reads only the fields it knows (`RecordStep.foldFields_eq_filter`): fields of other tags are
transparent if they are optional, and fatal if they are not.
-/

namespace OpenCrate.Format

/-- A field whose tag is not defined: refused if it is critical, skipped otherwise. -/
def skipUnknown {σ : Type} (tag : UInt16) (acc : σ) : Except FormatError σ :=
  match unknownTagAction tag with
  | .refuse => .error (.unknownCriticalField tag)
  | .ignore => .ok acc

theorem eq_of_skipUnknown {σ : Type} {tag : UInt16} {acc acc' : σ}
    (h : skipUnknown tag acc = .ok acc') : acc' = acc := by
  unfold skipUnknown at h
  split at h
  · exact nomatch h
  · exact (Except.ok.inj h).symm

theorem skipUnknown_of_optional {σ : Type} {tag : UInt16} (h : critTagMax < tag) (acc : σ) :
    skipUnknown tag acc = .ok acc := by
  rw [skipUnknown, unknownTagAction, if_neg (not_le.mpr h)]

theorem skipUnknown_of_critical {σ : Type} {tag : UInt16} (h : tag ≤ critTagMax) (acc : σ) :
    skipUnknown tag acc = .error (.unknownCriticalField tag) := by
  rw [skipUnknown, unknownTagAction, if_pos h]

theorem optional_of_skipUnknown {σ : Type} {tag : UInt16} {acc acc' : σ}
    (h : skipUnknown tag acc = .ok acc') : critTagMax < tag := by
  by_contra hcritical
  rw [skipUnknown_of_critical (not_lt.mp hcritical)] at h
  cases h

/-! ### Writing a record

The writer of a record puts its fields one by one, and computes the values of some of them in between.
The equations below turn such a writer into `writeAll`; what is computed in between comes out as a
condition. -/

namespace TlvWriter

variable {α β : Type} {l : Contents} {tag : UInt16} {value : List UInt8}

theorem new_put_bind (k : TlvWriter → Except FormatError β) :
    new.put tag value >>= k = new.putMany [(tag, value)] >>= k := by
  rw [putMany_cons, bind_assoc]
  rfl

theorem new_putOpt_bind (value : Option (List UInt8)) (k : TlvWriter → Except FormatError β) :
    new.putOpt tag value >>= k = new.putMany (optField tag value) >>= k := by
  rw [putOpt_eq_putMany]

theorem putMany_put_bind (w : TlvWriter) (k : TlvWriter → Except FormatError β) :
    (w.putMany l >>= fun w ↦ w.put tag value >>= k) = w.putMany (l ++ [(tag, value)]) >>= k := by
  rw [putMany_append, bind_assoc]
  refine bind_congr fun w ↦ ?_
  rw [putMany_cons, bind_assoc]
  rfl

theorem putMany_putOpt_bind (w : TlvWriter) (value : Option (List UInt8))
    (k : TlvWriter → Except FormatError β) :
    (w.putMany l >>= fun w ↦ w.putOpt tag value >>= k) =
      w.putMany (l ++ optField tag value) >>= k := by
  rw [putMany_append, bind_assoc]
  exact bind_congr fun w ↦ by rw [putOpt_eq_putMany]

theorem putMany_bind_eq_ok_iff {w : TlvWriter} {x : Except FormatError α}
    {k : TlvWriter → α → Except FormatError β} {b : β} :
    (w.putMany l >>= fun w ↦ x >>= k w) = .ok b ↔
      ∃ a, x = .ok a ∧ (w.putMany l >>= fun w ↦ k w a) = .ok b := by
  simp only [Except.bind_eq_ok_iff]
  constructor
  · rintro ⟨w', hw, a, hx, hk⟩
    exact ⟨a, hx, w', hw, hk⟩
  · rintro ⟨a, hx, w', hw, hk⟩
    exact ⟨w', hw, a, hx, hk⟩

/-- A chain of writes is the encoding of what it writes. -/
theorem putMany_finish_eq_ok_iff {bytes : List UInt8} :
    (new.putMany l >>= fun w ↦ .ok w.finish) = .ok bytes ↔ Encodes bytes l :=
  writeAll_eq_ok_iff

end TlvWriter

/-! ### Merging fields -/

/-- Fields are merged into a document in the order of their tags. -/
structure Merged (l extra l' : Contents) : Prop where
  perm : l'.Perm (l ++ extra)
  increasing : (l'.map Prod.fst).Pairwise (· < ·)

namespace Merged

variable {l extra l' : Contents}

theorem mem_iff (h : Merged l extra l') {p : UInt16 × List UInt8} : p ∈ l' ↔ p ∈ l ∨ p ∈ extra :=
  h.perm.mem_iff.trans List.mem_append

/-- What was not merged is as it was. -/
theorem filter_eq (h : Merged l extra l') (hl : (l.map Prod.fst).Pairwise (· < ·))
    {keep : UInt16 × List UInt8 → Bool} (hextra : ∀ p ∈ extra, keep p = false) :
    l'.filter keep = l.filter keep := by
  have hperm : (l'.filter keep).Perm (l.filter keep) := by
    have hnone : extra.filter keep = [] :=
      List.filter_eq_nil_iff.mpr fun p hp ↦ by simp [hextra p hp]
    have happend := h.perm.filter keep
    rwa [List.filter_append, hnone, List.append_nil] at happend
  have hsorted : ∀ {m : Contents}, (m.map Prod.fst).Pairwise (· < ·) →
      (m.filter keep).Pairwise fun p q ↦ p.1 < q.1 :=
    fun hm ↦ (List.pairwise_map.mp hm).filter keep
  exact hperm.eq_of_pairwise (fun p q _ _ hpq hqp ↦ absurd (hpq.trans hqp) (lt_irrefl p.1))
    (hsorted h.increasing) (hsorted hl)

end Merged

/-! ### Tables of tags -/

/-- A record is what it holds under the tags of a table, tag by tag. -/
theorem eq_flatMap_optField {l : Contents} {tags : List UInt16}
    (hl : (l.map Prod.fst).Pairwise (· < ·)) (htags : tags.Pairwise (· < ·))
    (hknown : ∀ p ∈ l, p.1 ∈ tags) : l = tags.flatMap fun tag ↦ optField tag (l.lookup tag) := by
  induction tags generalizing l with
  | nil => exact List.eq_nil_iff_forall_not_mem.mpr fun p hp ↦ nomatch hknown p hp
  | cons tag tags ih =>
    obtain ⟨hfirst, htags⟩ := List.pairwise_cons.mp htags
    rw [List.flatMap_cons]
    -- either the first record has the first tag, or no record does
    by_cases hmem : ∃ value rest, l = (tag, value) :: rest
    · obtain ⟨value, rest, rfl⟩ := hmem
      obtain ⟨hhead, hrest⟩ := List.pairwise_cons.mp hl
      rw [List.lookup_cons_self, optField_some, List.singleton_append, List.cons_inj_right]
      have hsub : ∀ p ∈ rest, p.1 ∈ tags := by
        intro p hp
        rcases List.mem_cons.mp (hknown p (List.mem_cons_of_mem _ hp)) with heq | htag
        · exact absurd (hhead p.1 (List.mem_map_of_mem hp)) (by rw [heq]; exact lt_irrefl _)
        · exact htag
      refine (ih hrest htags hsub).trans (List.flatMap_congr fun t ht ↦ ?_)
      rw [List.lookup_cons, beq_eq_false_iff_ne.mpr (hfirst t ht).ne']
    · have hsub : ∀ p ∈ l, tag < p.1 := by
        cases l with
        | nil => nofun
        | cons q rest =>
          obtain ⟨hhead, -⟩ := List.pairwise_cons.mp hl
          have hq : tag < q.1 := by
            rcases List.mem_cons.mp (hknown q List.mem_cons_self) with heq | htag
            · exact absurd ⟨q.2, rest, by rw [← heq]⟩ hmem
            · exact hfirst _ htag
          intro p hp
          rcases List.mem_cons.mp hp with rfl | hp
          · exact hq
          · exact hq.trans (hhead p.1 (List.mem_map_of_mem hp))
      have hnone : l.lookup tag = none :=
        List.lookup_eq_none_iff.mpr fun p hp ↦ bne_iff_ne.mpr (hsub p hp).ne
      rw [hnone, optField_none, List.nil_append]
      refine ih hl htags fun p hp ↦ ?_
      exact (List.mem_cons.mp (hknown p hp)).resolve_left (hsub p hp).ne'

/-! ### Loops over records -/

section

variable {σ : Type} {known : List UInt16} {step : σ → Field → Except FormatError σ}

/-- One round of a loop, on a tag and a value alone. -/
def readField (step : σ → Field → Except FormatError σ) (s : σ) (p : UInt16 × List UInt8) :
    Except FormatError σ :=
  step s ⟨p.1, p.2, ⟨0, 0⟩⟩

/-- A round of a loop looks at the tag and the value of a field, not at its position, and skips or
refuses the tags it does not know. -/
structure RecordStep (known : List UInt16) (step : σ → Field → Except FormatError σ) : Prop where
  span_free : ∀ s tag value span span', step s ⟨tag, value, span⟩ = step s ⟨tag, value, span'⟩
  skips : ∀ s tag value span, tag ∉ known → step s ⟨tag, value, span⟩ = skipUnknown tag s

/-- An optional field is read into its slot, which was empty before. -/
theorem foldlM_optField {α : Type} {tag : UInt16} {write : α → List UInt8} (slot : Option α → σ)
    {x : Option α}
    (hread : ∀ a ∈ x, readField step (slot none) (tag, write a) = .ok (slot (some a))) :
    (optField tag (x.map write)).foldlM (readField step) (slot none) = .ok (slot x) := by
  cases x with
  | none => rfl
  | some a => rw [Option.map_some, optField_some, List.foldlM_cons, hread a rfl]; rfl

/-- The same in front of further fields, for a value that stands for what is read from it. -/
theorem foldlM_optField_append_of_rel {α : Type} {tag : UInt16} (set : σ → Option α → σ) {s : σ}
    (hset : set s none = s) {P : List UInt8 → α → Prop} {value : Option (List UInt8)} {x : Option α}
    (hrel : Option.Rel P value x)
    (hread : ∀ bytes a, P bytes a → readField step s (tag, bytes) = .ok (set s (some a)))
    {rest : Contents} {r : σ} (hrest : rest.foldlM (readField step) (set s x) = .ok r) :
    (optField tag value ++ rest).foldlM (readField step) s = .ok r := by
  cases hrel with
  | none => rwa [hset] at hrest
  | some h =>
    rw [optField_some, List.cons_append, List.foldlM_cons, hread _ _ h]
    exact hrest

/-- An optional field is read, and the reading goes on with the fields behind it. -/
theorem foldlM_optField_append {α : Type} {tag : UInt16} {write : α → List UInt8}
    (set : σ → Option α → σ) {s : σ} (hset : set s none = s) {x : Option α}
    (hread : ∀ a ∈ x, readField step s (tag, write a) = .ok (set s (some a))) {rest : Contents} {r : σ}
    (hrest : rest.foldlM (readField step) (set s x) = .ok r) :
    (optField tag (x.map write) ++ rest).foldlM (readField step) s = .ok r := by
  cases x with
  | none => rwa [hset] at hrest
  | some a =>
    rw [Option.map_some, optField_some, List.cons_append, List.foldlM_cons, hread a rfl]
    exact hrest

namespace RecordStep

/-- The loop runs over tags and values. -/
theorem foldFields_eq (h : RecordStep known step) {bytes : List UInt8} {l : Contents}
    (henc : Encodes bytes l) (s : σ) :
    TlvReader.foldFields step (TlvReader.new bytes) s = l.foldlM (readField step) s := by
  rw [henc.foldFields, foldlM_fieldsOf h.span_free]
  rfl

/-- **Unknown optional fields are not read.** -/
theorem foldlM_eq_filter (h : RecordStep known step) {l : Contents}
    (hopt : ∀ p ∈ l, p.1 ∉ known → critTagMax < p.1) (s : σ) :
    l.foldlM (readField step) s =
      (l.filter fun p ↦ p.1 ∈ known).foldlM (readField step) s := by
  induction l generalizing s with
  | nil => rfl
  | cons p l ih =>
    obtain ⟨hp, hl⟩ := List.forall_mem_cons.mp hopt
    by_cases hknown : p.1 ∈ known
    · rw [List.filter_cons_of_pos (by simpa using hknown), List.foldlM_cons, List.foldlM_cons]
      exact bind_congr fun s' ↦ ih hl s'
    · rw [List.filter_cons_of_neg (by simpa using hknown), List.foldlM_cons, readField,
        h.skips s p.1 p.2 _ hknown, skipUnknown_of_optional (hp hknown)]
      exact ih hl s

/-- **Unknown critical fields are fatal.** -/
theorem optional_of_foldlM (h : RecordStep known step) {l : Contents} {s s' : σ}
    (hfold : l.foldlM (readField step) s = .ok s') :
    ∀ p ∈ l, p.1 ∉ known → critTagMax < p.1 := by
  intro p hp hunknown
  obtain ⟨c, c', hstep⟩ := Except.exists_of_mem_foldlM hfold hp
  rw [readField, h.skips c p.1 p.2 _ hunknown] at hstep
  exact optional_of_skipUnknown hstep

/-- The loop over a document into which unknown optional fields were merged. -/
theorem foldlM_merged (h : RecordStep known step) {l extra l' : Contents} {s s' : σ}
    (hl : (l.map Prod.fst).Pairwise (· < ·)) (hmerged : Merged l extra l')
    (hextra : ∀ p ∈ extra, p.1 ∉ known ∧ critTagMax < p.1)
    (hfold : l.foldlM (readField step) s = .ok s') : l'.foldlM (readField step) s = .ok s' := by
  have hopt := h.optional_of_foldlM hfold
  have hopt' : ∀ p ∈ l', p.1 ∉ known → critTagMax < p.1 := by
    intro p hp hunknown
    rcases hmerged.mem_iff.mp hp with hp | hp
    · exact hopt p hp hunknown
    · exact (hextra p hp).2
  rw [h.foldlM_eq_filter hopt', hmerged.filter_eq hl fun p hp ↦ by simp [(hextra p hp).1],
    ← h.foldlM_eq_filter hopt, hfold]

end RecordStep

/-- What is left of a record after some of its fields were dropped is read like the whole, into what is left
of the slots: a field that stays fills its slot there, and one that was dropped is not missed. -/
theorem foldlM_filter_only (keep : UInt16 → Bool) (only : σ → σ) {l : Contents} {s s' : σ}
    (hstep : ∀ p ∈ l, ∀ {s s'}, readField step s p = .ok s' →
      if keep p.1 then readField step (only s) p = .ok (only s') else only s' = only s)
    (h : l.foldlM (readField step) s = .ok s') :
    (l.filter fun p ↦ keep p.1).foldlM (readField step) (only s) = .ok (only s') := by
  induction l generalizing s with
  | nil =>
    obtain rfl := Except.ok.inj h
    rfl
  | cons p l ih =>
    obtain ⟨hp, hl⟩ := List.forall_mem_cons.mp hstep
    rw [List.foldlM_cons] at h
    obtain ⟨next, hnext, hrest⟩ := Except.bind_eq_ok_iff.mp h
    have honly := hp hnext
    have hleft := ih hl hrest
    -- a step that is kept is made on both sides, and any other one changes nothing that is seen
    by_cases hkeep : keep p.1
    · rw [if_pos hkeep] at honly
      rw [List.filter_cons_of_pos (by simpa using hkeep), List.foldlM_cons, honly, Except.ok_bind, hleft]
    · rw [if_neg hkeep] at honly
      rw [List.filter_cons_of_neg (by simpa using hkeep), ← honly, hleft]

/-- A round of a strict loop looks at the tag and the value of a field, too, and refuses every tag it does
not know. -/
structure StrictStep (known : List UInt16) (step : σ → Field → Except FormatError σ) : Prop where
  span_free : ∀ s tag value span span', step s ⟨tag, value, span⟩ = step s ⟨tag, value, span'⟩
  refuses : ∀ {s s' tag value}, readField step s (tag, value) = .ok s' → tag ∈ known

/-! ### Slots that are written back -/

/-- The loop can be inverted: `value` writes a slot as the field it is read from, what is read changes
the slot of its tag only, every value that is written for an allowed reading is read, and the values of
an allowed reading determine it. -/
structure SlotStep (known : List UInt16) (step : σ → Field → Except FormatError σ)
    (value : σ → UInt16 → Option (List UInt8)) (Allowed : σ → Prop) : Prop where
  reads : ∀ {s s' tag bytes}, tag ∈ known → value s tag = none → Allowed s →
    readField step s (tag, bytes) = .ok s' →
      Allowed s' ∧ ∀ u ∈ known, value s' u = if u = tag then some bytes else value s u
  accepts : ∀ {r tag bytes} s, tag ∈ known → Allowed r → value r tag = some bytes →
    ∃ s', readField step s (tag, bytes) = .ok s'
  ext : ∀ {r r'}, Allowed r → Allowed r' → (∀ u ∈ known, value r u = value r' u) → r = r'

namespace SlotStep

variable {value : σ → UInt16 → Option (List UInt8)} {Allowed : σ → Prop} {l : Contents} {s r : σ}

/-- The fields of a reading. -/
def contents (known : List UInt16) (value : σ → UInt16 → Option (List UInt8)) (r : σ) : Contents :=
  known.flatMap fun tag ↦ optField tag (value r tag)

/-- What the slots hold at the end is what the record holds under their tags. -/
theorem lookup_of_foldlM (h : SlotStep known step value Allowed) (hnodup : (l.map Prod.fst).Nodup)
    (hknown : ∀ p ∈ l, p.1 ∈ known) (hempty : ∀ p ∈ l, value s p.1 = none) (hs : Allowed s)
    (hfold : l.foldlM (readField step) s = .ok r) :
    Allowed r ∧ ∀ u ∈ known, value r u = (l.lookup u).or (value s u) := by
  -- by induction on the records: no tag comes twice, so a slot is filled once
  induction l generalizing s with
  | nil =>
    cases hfold
    exact ⟨hs, fun u _ ↦ rfl⟩
  | cons p l ih =>
    rw [List.foldlM_cons] at hfold
    obtain ⟨s', hstep, hfold⟩ := Except.bind_eq_ok_iff.mp hfold
    obtain ⟨hp, hl⟩ := List.forall_mem_cons.mp hknown
    obtain ⟨hempty, hrest⟩ := List.forall_mem_cons.mp hempty
    obtain ⟨hfresh, hnodup⟩ := List.nodup_cons.mp hnodup
    obtain ⟨hs', hvalue⟩ := h.reads hp hempty hs hstep
    have hempty' : ∀ q ∈ l, value s' q.1 = none := by
      intro q hq
      have hne : q.1 ≠ p.1 := fun heq ↦ hfresh (heq ▸ List.mem_map_of_mem hq)
      rw [hvalue q.1 (hl q hq), if_neg hne, hrest q hq]
    obtain ⟨hr, hread⟩ := ih hnodup hl hempty' hs' hfold
    refine ⟨hr, fun u hu ↦ ?_⟩
    rw [hread u hu, hvalue u hu, List.lookup_cons]
    by_cases hup : u = p.1
    · have hnone : l.lookup u = none :=
        List.lookup_eq_none_iff.mpr fun q hq ↦ bne_iff_ne.mpr fun heq ↦
          hfresh (hup ▸ heq ▸ List.mem_map_of_mem hq)
      rw [hnone, if_pos hup, beq_iff_eq.mpr hup]
      rfl
    · rw [if_neg hup, beq_eq_false_iff_ne.mpr hup]

theorem mem_contents {p : UInt16 × List UInt8} :
    p ∈ contents known value r ↔ p.1 ∈ known ∧ value r p.1 = some p.2 := by
  rw [contents, List.mem_flatMap]
  constructor
  · rintro ⟨tag, htag, hp⟩
    cases hvalue : value r tag with
    | none => rw [hvalue] at hp; exact nomatch hp
    | some bytes =>
      rw [hvalue, optField_some, List.mem_singleton] at hp
      cases hp
      exact ⟨htag, hvalue⟩
  · rintro ⟨htag, hvalue⟩
    exact ⟨p.1, htag, by rw [hvalue, optField_some, List.mem_singleton]⟩

theorem contents_increasing (hknown : known.Pairwise (· < ·)) :
    ((contents known value r).map Prod.fst).Pairwise (· < ·) := by
  refine hknown.sublist ?_
  rw [contents, List.map_flatMap]
  induction known with
  | nil => exact List.Sublist.refl _
  | cons tag known ih =>
    rw [List.flatMap_cons]
    exact (optField_tags_sublist tag _).append (ih (List.pairwise_cons.mp hknown).2)

theorem lookup_eq_some_of_mem {u : UInt16} {bytes : List UInt8} (hnodup : (l.map Prod.fst).Nodup)
    (hmem : (u, bytes) ∈ l) : l.lookup u = some bytes := by
  induction l with
  | nil => exact nomatch hmem
  | cons p l ih =>
    obtain ⟨hfresh, hnodup⟩ := List.nodup_cons.mp hnodup
    rw [List.lookup_cons]
    rcases List.mem_cons.mp hmem with rfl | hmem
    · rw [beq_self_eq_true]
    · have hne : u ≠ p.1 := fun heq ↦ hfresh (heq ▸ List.mem_map_of_mem hmem)
      rw [beq_eq_false_iff_ne.mpr hne]
      exact ih hnodup hmem

/-- The value of a field is found under its tag. -/
theorem lookup_contents (hknown : known.Pairwise (· < ·)) {u : UInt16} (hu : u ∈ known) :
    (contents known value r).lookup u = value r u := by
  cases hvalue : value r u with
  | none =>
    refine List.lookup_eq_none_iff.mpr fun p hp ↦ bne_iff_ne.mpr ?_
    rintro rfl
    rw [(mem_contents.mp hp).2] at hvalue
    cases hvalue
  | some bytes =>
    have hmem : (u, bytes) ∈ contents known value r := mem_contents.mpr ⟨hu, hvalue⟩
    have hnodup : ((contents known value r).map Prod.fst).Nodup :=
      (contents_increasing hknown).imp fun hlt ↦ hlt.ne
    exact lookup_eq_some_of_mem hnodup hmem

/-- Readings whose fields are equal hold the same values. -/
theorem value_eq_of_contents_eq (hknown : known.Pairwise (· < ·)) {r' : σ}
    (h : contents known value r = contents known value r') : ∀ u ∈ known, value r u = value r' u := by
  intro u hu
  have hr : (contents known value r).lookup u = value r u := lookup_contents hknown hu
  have hr' : (contents known value r').lookup u = value r' u := lookup_contents hknown hu
  rw [← hr, h, hr']

/-- **The loop inverted.** A record of known fields is read if and only if its fields are the ones that are
written for the slots it is read into. -/
theorem foldlM_eq_ok_iff (h : SlotStep known step value Allowed) (hknown : known.Pairwise (· < ·))
    (hs : Allowed s) (hempty : ∀ u ∈ known, value s u = none)
    (hl : (l.map Prod.fst).Pairwise (· < ·)) (htags : ∀ p ∈ l, p.1 ∈ known) :
    l.foldlM (readField step) s = .ok r ↔ Allowed r ∧ l = contents known value r := by
  have hread : ∀ {l : Contents} {r}, (l.map Prod.fst).Pairwise (· < ·) → (∀ p ∈ l, p.1 ∈ known) →
      l.foldlM (readField step) s = .ok r → Allowed r ∧ ∀ u ∈ known, value r u = l.lookup u := by
    intro l r hl htags hfold
    obtain ⟨hr, hvalue⟩ := h.lookup_of_foldlM (hl.imp fun hlt ↦ hlt.ne) htags
      (fun p hp ↦ hempty p.1 (htags p hp)) hs hfold
    refine ⟨hr, fun u hu ↦ ?_⟩
    rw [hvalue u hu, hempty u hu, Option.or_none]
  constructor
  · intro hfold
    obtain ⟨hr, hvalue⟩ := hread hl htags hfold
    refine ⟨hr, (eq_flatMap_optField hl hknown htags).trans (List.flatMap_congr fun tag htag ↦ ?_)⟩
    rw [hvalue tag htag]
  · rintro ⟨hr, rfl⟩
    obtain ⟨r', hr'⟩ := Except.exists_foldlM (fun p hp s ↦
      h.accepts s (mem_contents.mp hp).1 hr (mem_contents.mp hp).2) s
    obtain ⟨hallowed, hvalue⟩ := hread hl htags hr'
    have heq : r' = r := h.ext hallowed hr fun u hu ↦ by
      rw [hvalue u hu, lookup_contents hknown hu]
    rw [hr', heq]

/-- **A loop inverted that skips what it does not know.** A document is read into slots if and only if its unknown
fields are optional and its known ones are those that are written for the slots. -/
theorem foldlM_record_eq_ok_iff (h : SlotStep known step value Allowed) (hrecord : RecordStep known step)
    (hknown : known.Pairwise (· < ·)) (hs : Allowed s) (hempty : ∀ u ∈ known, value s u = none)
    (hl : (l.map Prod.fst).Pairwise (· < ·)) :
    l.foldlM (readField step) s = .ok r ↔ (∀ p ∈ l, p.1 ∉ known → critTagMax < p.1) ∧
      Allowed r ∧ (l.filter fun p ↦ p.1 ∈ known) = contents known value r := by
  have htags : ((l.filter fun p ↦ p.1 ∈ known).map Prod.fst).Pairwise (· < ·) :=
    hl.sublist (List.filter_sublist.map _)
  have hmem : ∀ p ∈ l.filter fun p ↦ p.1 ∈ known, p.1 ∈ known := fun p hp ↦
    of_decide_eq_true (List.mem_filter.mp hp).2
  constructor
  · intro hfold
    have hoptional := hrecord.optional_of_foldlM hfold
    rw [hrecord.foldlM_eq_filter hoptional, h.foldlM_eq_ok_iff hknown hs hempty htags hmem] at hfold
    exact ⟨hoptional, hfold⟩
  · intro hread
    obtain ⟨hoptional, hread⟩ := hread
    rw [hrecord.foldlM_eq_filter hoptional, h.foldlM_eq_ok_iff hknown hs hempty htags hmem]
    exact hread

/-- **A strict loop inverted.** Bytes are read into slots if and only if they are the document that is
written for the slots. -/
theorem foldFields_eq_ok_iff {bytes : List UInt8} (h : SlotStep known step value Allowed)
    (hstrict : StrictStep known step) (hknown : known.Pairwise (· < ·)) (hs : Allowed s)
    (hempty : ∀ u ∈ known, value s u = none) :
    TlvReader.foldFields step (TlvReader.new bytes) s = .ok r ↔
      Allowed r ∧ Encodes bytes (contents known value r) := by
  have hloop {l : Contents} (henc : Encodes bytes l) :
      TlvReader.foldFields step (TlvReader.new bytes) s = l.foldlM (readField step) s := by
    rw [henc.foldFields, foldlM_fieldsOf hstrict.span_free]
    rfl
  constructor
  · intro hread
    obtain ⟨l, henc, -⟩ := exists_encodes_of_foldFields hread
    rw [hloop henc] at hread
    have htags : ∀ p ∈ l, p.1 ∈ known := by
      intro p hp
      obtain ⟨c, c', hstep⟩ := Except.exists_of_mem_foldlM hread hp
      exact hstrict.refuses hstep
    obtain ⟨hr, rfl⟩ := (h.foldlM_eq_ok_iff hknown hs hempty henc.increasing htags).1 hread
    exact ⟨hr, henc⟩
  · rintro ⟨hr, henc⟩
    have htags : ∀ p ∈ contents known value r, p.1 ∈ known := fun p hp ↦ (mem_contents.1 hp).1
    rw [hloop henc]
    exact (h.foldlM_eq_ok_iff hknown hs hempty henc.increasing htags).2 ⟨hr, rfl⟩

end SlotStep

end

end OpenCrate.Format
