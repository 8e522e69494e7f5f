import OpenCrate.Format.EditCover
import OpenCrate.Format.KeySlot

/-!
# Slots of a later client

Key slots of different clients stand in one list. A slot that this client cannot use is kept as it was read
and disturbs no other (`decodeSlots_insertIdx`): whether it can be used is decided before a length of its
fields is checked.
-/

namespace OpenCrate.Format

open Crypto
open Except (refuseIf okOr)

/-- The tags of the fields of a slot. -/
def slotTags : List UInt16 := [1, 2, 3, 4, 5, 6, 7, 8]

/-- A slot that this client cannot use: it has a kind, and a mechanism where the kind is known, and one of
them or a critical field is none of the client's. -/
structure ForeignSlot (version kind : UInt16) (fields : Contents) : Prop where
  kind_mem : (SlotTag.kind, toLeBytes kind) ∈ fields
  length_kem : ∀ value, (SlotTag.kem, value) ∈ fields → value.length = 1
  exists_kem : (SlotKind.fromU16 kind).isSome = true → ∃ value, (SlotTag.kem, value) ∈ fields
  foreign : SlotKind.fromU16 kind = none ∨
    (∃ kem, (SlotTag.kem, [kem]) ∈ fields ∧
      ∀ alg, KemAlg.fromU8 kem = .ok alg → expectedEncLen version alg = none) ∨
    ∃ p ∈ fields, p.1 ∉ slotTags ∧ p.1 ≤ critTagMax

/-! ### The first pass -/

section

variable {acc acc' : SlotReading} {f : Field} {l : Contents} {offset : ℕ} {kind : UInt16} {kem : UInt8}

/-- The first pass refuses nothing but a kind or a mechanism of a wrong length. -/
theorem exists_decodeSlotStep (hkind : f.tag = SlotTag.kind → ∃ kind : UInt16, f.value = toLeBytes kind)
    (hkem : f.tag = SlotTag.kem → ∃ kem, f.value = [kem]) (acc : SlotReading) :
    ∃ acc', decodeSlotStep acc f = .ok acc' := by
  unfold decodeSlotStep
  split
  · next htag =>
    obtain ⟨kind, hvalue⟩ := hkind htag
    have hread : f.u16 = .ok kind := Field.le_eq_ok_iff.mpr hvalue
    exact ⟨_, by rw [hread, Except.ok_bind]⟩
  · next htag =>
    obtain ⟨kem, hvalue⟩ := hkem htag
    have hread : f.u8 = .ok kem := Field.u8_eq_ok_iff.mpr hvalue
    exact ⟨_, by rw [hread, Except.ok_bind]⟩
  all_goals first | exact ⟨_, rfl⟩ | skip
  cases unknownTagAction f.tag <;> exact ⟨_, rfl⟩

/-- A field sets nothing but what its tag stands for, and a slot stays unusable. -/
theorem decodeSlotStep_keeps (h : decodeSlotStep acc f = .ok acc') :
    (f.tag ≠ SlotTag.kind → acc'.kindRaw = acc.kindRaw) ∧
      (f.tag ≠ SlotTag.kem → acc'.kem = acc.kem) ∧ (acc.unusable = true → acc'.unusable = true) := by
  unfold decodeSlotStep at h
  split at h
  case h_1 htag =>
    obtain ⟨kind, -, rfl⟩ := Except.map_eq_ok_iff.mp h
    exact ⟨fun hne ↦ absurd htag hne, fun _ ↦ rfl, id⟩
  case h_2 htag =>
    obtain ⟨kem, -, rfl⟩ := Except.map_eq_ok_iff.mp h
    exact ⟨fun _ ↦ rfl, fun hne ↦ absurd htag hne, id⟩
  case h_9 =>
    split at h
    · exact Except.ok.inj h ▸ ⟨fun _ ↦ rfl, fun _ ↦ rfl, fun _ ↦ rfl⟩
    · exact Except.ok.inj h ▸ ⟨fun _ ↦ rfl, fun _ ↦ rfl, id⟩
  all_goals exact Except.ok.inj h ▸ ⟨fun _ ↦ rfl, fun _ ↦ rfl, id⟩

/-- The kind of a slot is taken as it is, known or not. -/
theorem kindRaw_of_step (htag : f.tag = SlotTag.kind) (hvalue : f.value = toLeBytes kind)
    (h : decodeSlotStep acc f = .ok acc') : acc'.kindRaw = some kind := by
  have hread : f.u16 = .ok kind := Field.le_eq_ok_iff.mpr hvalue
  simp only [decodeSlotStep, htag, SlotTag.kind, hread, Except.ok_bind, Except.ok.injEq] at h
  exact h ▸ rfl

theorem kem_of_step (htag : f.tag = SlotTag.kem) (hvalue : f.value = [kem])
    (h : decodeSlotStep acc f = .ok acc') : acc'.kem = some kem := by
  have hread : f.u8 = .ok kem := Field.u8_eq_ok_iff.mpr hvalue
  simp only [decodeSlotStep, htag, SlotTag.kem, hread, Except.ok_bind, Except.ok.injEq] at h
  exact h ▸ rfl

/-- A critical field that is not known makes the slot unusable, but not the file. -/
theorem unusable_of_step (htag : f.tag ∉ slotTags) (hcritical : f.tag ≤ critTagMax)
    (h : decodeSlotStep acc f = .ok acc') : acc'.unusable = true := by
  unfold decodeSlotStep at h
  split at h
  case h_9 =>
    rw [unknownTagAction, if_pos hcritical] at h
    exact Except.ok.inj h ▸ rfl
  all_goals
    rename_i htag'
    exact absurd (htag' ▸ by decide) htag

/-- What the field with a tag brings about holds after the first pass. -/
theorem firstPass_of_mem {P : SlotReading → Prop} {p : UInt16 × List UInt8} {bytes : List UInt8}
    (henc : Encodes bytes l) (hp : p ∈ l)
    (h : (fieldsOf offset l).foldlM decodeSlotStep acc = .ok acc')
    (hset : ∀ f acc acc', f.tag = p.1 → f.value = p.2 → decodeSlotStep acc f = .ok acc' → P acc')
    (hkeep : ∀ f acc acc', f.tag ≠ p.1 → P acc → decodeSlotStep acc f = .ok acc' → P acc') :
    P acc' := by
  obtain ⟨pre, post, rfl, -, hpost⟩ := henc.exists_split hp
  rw [fieldsOf_append, fieldsOf] at h
  refine Except.foldlM_of_mem h (fun c c' hc ↦ hset _ c c' rfl rfl hc) fun f hf c c' hc hstep ↦ ?_
  exact hkeep f c c' (hpost _ (mem_of_mem_fieldsOf hf)).ne' hc hstep

end

/-- **A slot of a later client is kept as it is.** -/
theorem decodeSlot_of_foreign {version kind : UInt16} {record : List UInt8} {fields : Contents}
    (henc : Encodes record fields) (h : ForeignSlot version kind fields) :
    decodeSlot version record = .ok (.unknown kind record) := by
  have hsame {tag : UInt16} {v w : List UInt8} (hv : (tag, v) ∈ fields) (hw : (tag, w) ∈ fields) :
      v = w := by
    have htags := henc.increasing
    have hnodup := htags.imp ne_of_lt
    have hlookup := SlotStep.lookup_eq_some_of_mem hnodup hv
    exact Option.some_inj.mp (hlookup.symm.trans (SlotStep.lookup_eq_some_of_mem hnodup hw))
  -- the first pass goes through
  obtain ⟨acc, hacc⟩ : ∃ acc, (fieldsOf 0 fields).foldlM decodeSlotStep {} = .ok acc := by
    refine Except.exists_foldlM (fun f hf ↦ exists_decodeSlotStep (fun htag ↦ ?_) fun htag ↦ ?_) _
    · exact ⟨kind, hsame (htag ▸ mem_of_mem_fieldsOf hf) h.kind_mem⟩
    · exact List.length_eq_one_iff.mp (h.length_kem _ (htag ▸ mem_of_mem_fieldsOf hf))
  have hkind : acc.kindRaw = some kind := by
    refine firstPass_of_mem (P := fun acc ↦ acc.kindRaw = some kind) henc h.kind_mem hacc ?_ ?_
    · exact fun f c c' htag hvalue hstep ↦ kindRaw_of_step htag hvalue hstep
    · exact fun f c c' htag hc hstep ↦ ((decodeSlotStep_keeps hstep).1 htag).trans hc
  have hkem (kem : UInt8) (hmem : (SlotTag.kem, [kem]) ∈ fields) : acc.kem = some kem := by
    refine firstPass_of_mem (P := fun acc ↦ acc.kem = some kem) henc hmem hacc ?_ ?_
    · exact fun f c c' htag hvalue hstep ↦ kem_of_step htag hvalue hstep
    · exact fun f c c' htag hc hstep ↦ ((decodeSlotStep_keeps hstep).2.1 htag).trans hc
  rw [decodeSlot, henc.foldFields, hacc]
  simp only [Except.ok_bind, hkind, Except.okOr_some]
  split_ifs with hunusable
  · rfl
  rcases hfrom : SlotKind.fromU16 kind with - | known
  · rfl
  -- the kind is known: there is a mechanism, and it is not
  obtain ⟨value, hvalue⟩ := h.exists_kem (by rw [hfrom]; rfl)
  obtain ⟨kem, rfl⟩ := List.length_eq_one_iff.mp (h.length_kem value hvalue)
  simp only [hkem kem hvalue, Except.okOr_some, Except.ok_bind]
  rcases hfromKem : KemAlg.fromU8 kem with - | alg
  · rfl
  rcases h.foreign with hunknown | ⟨kem', hmem, hshape⟩ | ⟨p, hp, htag, hcritical⟩
  · exact absurd (hfrom.symm.trans hunknown) (Option.some_ne_none known)
  · obtain rfl : kem = kem' := by simpa using hsame hvalue hmem
    simp only [hshape alg hfromKem]
  · refine absurd (firstPass_of_mem (P := fun acc ↦ acc.unusable = true) henc hp hacc ?_ ?_) hunusable
    · intro f c c' hf _ hstep
      exact unusable_of_step (hf ▸ htag) (hf ▸ hcritical) hstep
    · exact fun f c c' _ hc hstep ↦ (decodeSlotStep_keeps hstep).2.2 hc

/-- Two lists in step stay so when one element is inserted in both. -/
theorem forall₂_insertIdx {α β : Type} {R : α → β → Prop} {l : List α} {m : List β} (h : List.Forall₂ R l m)
    {a : α} {b : β} (hab : R a b) (i : ℕ) : List.Forall₂ R (l.insertIdx i a) (m.insertIdx i b) := by
  induction h generalizing i with
  | nil =>
    cases i with
    | zero => exact .cons hab .nil
    | succ i => exact .nil
  | cons hxy h ih =>
    cases i with
    | zero => exact .cons hab (.cons hxy h)
    | succ i => exact .cons hxy (ih i)

/-- **Unfamiliar slots disturb no other.** A slot that this client cannot use is inserted at any position of a
list that is read, under any increasing tags: the list is read as before, with that slot kept as it is. -/
theorem decodeSlots_insertIdx {version kind : UInt16} {bytes bytes' record : List UInt8} {l l' fields : Contents}
    {slots : List KeySlot} {i : ℕ} (henc : Encodes bytes l) (h : decodeSlots version bytes = .ok slots)
    (hrecord : Encodes record fields) (hforeign : ForeignSlot version kind fields)
    (henc' : Encodes bytes' l') (hvalues : l'.map Prod.snd = (l.map Prod.snd).insertIdx i record)
    (hlen : l'.length ≤ maxKeySlots) :
    decodeSlots version bytes' = .ok (slots.insertIdx i (.unknown kind record)) := by
  obtain ⟨l₀, more, henc₀, hread, rfl, -⟩ := TlvReader.collect_eq_ok_iff.mp h
  obtain rfl := henc₀.unique henc
  have hslots : List.Forall₂ (fun value slot ↦ decodeSlot version value = .ok slot)
      (l₀.map Prod.snd) slots :=
    List.forall₂_map_left_iff.mpr hread
  have hread := forall₂_insertIdx hslots (decodeSlot_of_foreign hrecord hforeign) i
  rw [← hvalues, List.forall₂_map_left_iff] at hread
  refine TlvReader.collect_eq_ok_iff.mpr ⟨l', _, henc', hread, rfl, Or.inr ?_⟩
  rw [← hread.length_eq]
  exact hlen

/-- A claim slot. -/
def sampleClaimSlot : KnownSlot :=
  ⟨.recipientClaim, .x25519HkdfSha256, List.replicate 32 0, List.Vector.replicate 24 0, [],
    List.Vector.replicate 32 1, none, some (List.Vector.replicate 32 2)⟩

theorem decodeSlots_insertIdx_claim :
    decodeSlots 5 (encodeContents [(0, encodeContents [(1, [9, 9])]),
      (4, encodeContents sampleClaimSlot.contents)]) =
        .ok [.unknown 0x0909 (encodeContents [(1, [9, 9])]), .known sampleClaimSlot] := by
  have hslot : Encodes (encodeContents sampleClaimSlot.contents) sampleClaimSlot.contents :=
    Encodes.of_forall sampleClaimSlot.contents_increasing (by decide)
  have hlength : (encodeContents sampleClaimSlot.contents).length < 2 ^ 32 :=
    (length_encodeContents _).trans_lt (by decide)
  have hone : Encodes (encodeContents [(0, encodeContents sampleClaimSlot.contents)])
      [(0, encodeContents sampleClaimSlot.contents)] :=
    Encodes.of_forall (List.pairwise_singleton ..) (List.forall_mem_singleton.mpr hlength)
  have hread : decodeSlots 5 (encodeContents [(0, encodeContents sampleClaimSlot.contents)]) =
      .ok [.known sampleClaimSlot] := by
    refine TlvReader.collect_eq_ok_iff.mpr ⟨_, _, hone, .cons (decodeSlot_encode ?_ hslot) .nil, rfl,
      Or.inr (by decide)⟩
    exact ⟨by decide, fun _ ↦ nofun, by decide⟩
  have hrecord : Encodes (encodeContents [(1, [9, 9])]) [(1, [9, 9])] :=
    Encodes.of_forall (List.pairwise_singleton ..) (by decide)
  refine decodeSlots_insertIdx (i := 0) hone hread hrecord ⟨by decide, by simp [SlotTag.kem], nofun,
    Or.inl (by decide)⟩ (Encodes.of_forall (by decide) ?_) rfl (by decide)
  exact List.forall_mem_cons.mpr ⟨by decide, List.forall_mem_singleton.mpr hlength⟩

end OpenCrate.Format
