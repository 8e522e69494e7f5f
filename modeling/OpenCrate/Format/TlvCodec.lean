import OpenCrate.Format.Tlv

/-!
# Codecs over TLV

What a writer has written and what a loop over fields reads meet in one relation: `Encodes bytes l`
says that `bytes` is the document with the tags and values `l`. A codec's encoder is shown to write
a list (`writeAll_eq_ok_iff`), its decoder folds over the fields of that list
(`Encodes.foldFields`), and neither proof looks at bytes again.
-/

namespace OpenCrate.Format

open Except (refuseIf)

/-- The tags and values of a document. -/
abbrev Contents := List (UInt16 × List UInt8)

/-- The bytes are the document with the given tags and values. -/
def Encodes (bytes : List UInt8) (l : Contents) : Prop :=
  ∃ records : List Record, Increasing none records ∧ bytes = bytesOf records ∧
    records.map (fun r ↦ (r.tag, r.value)) = l

/-- The fields of tags and values as they are read from an offset on. -/
def fieldsOf : ℕ → Contents → List Field
  | _, [] => []
  | offset, (tag, value) :: l =>
    ⟨tag, value, ⟨offset + fieldPrefixLen, offset + fieldPrefixLen + value.length⟩⟩ ::
      fieldsOf (offset + fieldPrefixLen + value.length) l

theorem fieldsAt_eq_fieldsOf (offset : ℕ) (records : List Record) :
    fieldsAt offset records = fieldsOf offset (records.map fun r ↦ (r.tag, r.value)) := by
  induction records generalizing offset with
  | nil => rfl
  | cons rec records ih =>
    rw [fieldsAt, Record.length_bytes, ← Nat.add_assoc, ih]
    rfl

/-- The number of bytes of tags and values. -/
def encodedLength (l : Contents) : ℕ := (l.map fun p ↦ fieldPrefixLen + p.2.length).sum

@[simp] theorem encodedLength_nil : encodedLength [] = 0 := rfl

@[simp] theorem encodedLength_cons (tag : UInt16) (value : List UInt8) (l : Contents) :
    encodedLength ((tag, value) :: l) = fieldPrefixLen + value.length + encodedLength l := rfl

theorem encodedLength_append (l l' : Contents) :
    encodedLength (l ++ l') = encodedLength l + encodedLength l' := by
  rw [encodedLength, List.map_append, List.sum_append]
  rfl

theorem encodedLength_le_of_sublist {l l' : Contents} (h : l.Sublist l') :
    encodedLength l ≤ encodedLength l' := by
  induction h with
  | slnil => exact Nat.le_refl _
  | cons p _ ih =>
    rw [encodedLength_cons]
    omega
  | cons_cons p _ ih =>
    rw [encodedLength_cons, encodedLength_cons]
    omega

/-- Fewer fields are shorter. -/
theorem encodedLength_le_of_subset {l l' : Contents} (hnodup : l.Nodup) (hsub : l ⊆ l') :
    encodedLength l ≤ encodedLength l' := by
  obtain ⟨m, hperm, hm⟩ := List.subperm_of_subset hnodup hsub
  calc encodedLength l = encodedLength m := ((hperm.map _).sum_eq).symm
    _ ≤ encodedLength l' := encodedLength_le_of_sublist hm

theorem fieldsOf_append (offset : ℕ) (l l' : Contents) :
    fieldsOf offset (l ++ l') = fieldsOf offset l ++ fieldsOf (offset + encodedLength l) l' := by
  induction l generalizing offset with
  | nil => rfl
  | cons p l ih =>
    rw [List.cons_append, fieldsOf, fieldsOf, ih, encodedLength_cons, ← Nat.add_assoc,
      ← Nat.add_assoc, List.cons_append]

theorem length_le_encodedLength {l : Contents} {p : UInt16 × List UInt8} (hp : p ∈ l) :
    p.2.length ≤ encodedLength l := by
  induction l with
  | nil => exact absurd hp (by simp)
  | cons q l ih =>
    rw [encodedLength_cons]
    rcases List.mem_cons.mp hp with rfl | hp
    · omega
    · have := ih hp
      omega

/-- The bytes of tags and values, whether they are a document or not. -/
def encodeContents (l : Contents) : List UInt8 :=
  l.flatMap fun p ↦ toLeBytes p.1 ++ toLeBytes (UInt32.ofNat p.2.length) ++ p.2

theorem encodeContents_append (l l' : Contents) :
    encodeContents (l ++ l') = encodeContents l ++ encodeContents l' :=
  List.flatMap_append

/-- The length of an encoding is known before it is written. -/
theorem length_encodeContents (l : Contents) : (encodeContents l).length = encodedLength l := by
  rw [encodeContents, List.length_flatMap, encodedLength]
  congr 1
  refine List.map_congr_left fun p _ ↦ ?_
  rw [List.length_append, List.length_append, length_toLeBytes, length_toLeBytes]
  rfl

namespace Encodes

variable {bytes bytes' : List UInt8} {l l' : Contents}

/-- What can be written: increasing tags, and values whose length fits in four bytes. -/
theorem exists_iff :
    (∃ bytes, Encodes bytes l) ↔
      (l.map Prod.fst).Pairwise (· < ·) ∧ ∀ p ∈ l, p.2.length < 2 ^ 32 := by
  constructor
  · rintro ⟨-, records, hinc, -, rfl⟩
    rw [increasing_none] at hinc
    refine ⟨by rwa [List.map_map], ?_⟩
    rintro p hp
    obtain ⟨r, -, rfl⟩ := List.mem_map.mp hp
    exact r.fits
  · rintro ⟨hinc, hfits⟩
    refine ⟨_, l.attach.map fun p ↦ ⟨p.1.1, p.1.2, hfits p.1 p.2⟩, ?_, rfl, ?_⟩
    · rw [increasing_none, List.map_map]
      have hmap : l.attach.map (Prod.fst ∘ Subtype.val) = l.map Prod.fst := by
        rw [← List.map_map, List.attach_map_subtype_val]
      exact hmap ▸ hinc
    · rw [List.map_map]
      exact List.attach_map_subtype_val l

/-- The bytes are determined by the tags and values. -/
theorem eq_encodeContents (h : Encodes bytes l) : bytes = encodeContents l := by
  obtain ⟨records, -, rfl, rfl⟩ := h
  rw [encodeContents, List.flatMap_map]
  rfl

theorem length_eq (h : Encodes bytes l) : bytes.length = encodedLength l := by
  rw [h.eq_encodeContents, length_encodeContents]

/-- Increasing tags can be written if the whole is short. -/
theorem exists_of_short (htags : (l.map Prod.fst).Pairwise (· < ·))
    (hshort : encodedLength l < 2 ^ 32) : ∃ bytes, Encodes bytes l ∧ bytes.length < 2 ^ 32 := by
  obtain ⟨bytes, h⟩ := exists_iff.mpr
    ⟨htags, fun p hp ↦ (length_le_encodedLength hp).trans_lt hshort⟩
  exact ⟨bytes, h, h.length_eq ▸ hshort⟩

/-- Contents with increasing tags and values that fit are written. -/
theorem of_forall (htags : (l.map Prod.fst).Pairwise (· < ·)) (hfits : ∀ p ∈ l, p.2.length < 2 ^ 32) :
    Encodes (encodeContents l) l := by
  obtain ⟨bytes, h⟩ := exists_iff.mpr ⟨htags, hfits⟩
  rwa [← h.eq_encodeContents]

theorem increasing (h : Encodes bytes l) : (l.map Prod.fst).Pairwise (· < ·) :=
  (exists_iff.mp ⟨bytes, h⟩).1

theorem fits (h : Encodes bytes l) : ∀ p ∈ l, p.2.length < 2 ^ 32 :=
  (exists_iff.mp ⟨bytes, h⟩).2

/-- Fewer fields are a document, too. -/
theorem of_sublist (h : Encodes bytes l) (hsub : l'.Sublist l) : Encodes (encodeContents l') l' :=
  of_forall (h.increasing.sublist (hsub.map _)) fun p hp ↦ h.fits p (hsub.subset hp)

/-- A loop over the document is a fold over its fields. -/
theorem foldFields {σ : Type} (h : Encodes bytes l) (step : σ → Field → Except FormatError σ)
    (s : σ) : TlvReader.foldFields step (TlvReader.new bytes) s = (fieldsOf 0 l).foldlM step s := by
  obtain ⟨records, hinc, rfl, rfl⟩ := h
  rw [TlvReader.foldFields_bytesOf hinc, fieldsAt_eq_fieldsOf]

end Encodes

/-- A loop that was not refused has read a document. -/
theorem exists_encodes_of_foldFields {σ : Type} {step : σ → Field → Except FormatError σ}
    {bytes : List UInt8} {s s' : σ}
    (h : TlvReader.foldFields step (TlvReader.new bytes) s = .ok s') :
    ∃ l, Encodes bytes l ∧ (fieldsOf 0 l).foldlM step s = .ok s' := by
  obtain ⟨records, hinc, hbuf, hfold⟩ := TlvReader.exists_of_foldFields h
  rw [fieldsAt_eq_fieldsOf] at hfold
  exact ⟨_, ⟨records, hinc, hbuf, rfl⟩, hfold⟩

theorem map_fieldsOf (offset : ℕ) (l : Contents) :
    (fieldsOf offset l).map (fun f ↦ (f.tag, f.value)) = l := by
  induction l generalizing offset with
  | nil => rfl
  | cons p l ih => rw [fieldsOf, List.map_cons, ih]

/-- The tag and value of a field are among the contents it was read from. -/
theorem mem_of_mem_fieldsOf {offset : ℕ} {l : Contents} {f : Field} (hf : f ∈ fieldsOf offset l) :
    (f.tag, f.value) ∈ l := by
  rw [← map_fieldsOf offset l]
  exact List.mem_map_of_mem hf

/-- Every tag and value of a document was read as a field. -/
theorem exists_mem_fieldsOf (offset : ℕ) {l : Contents} {tag : UInt16} {value : List UInt8}
    (h : (tag, value) ∈ l) : ∃ span, ⟨tag, value, span⟩ ∈ fieldsOf offset l := by
  rw [← map_fieldsOf offset l] at h
  obtain ⟨⟨tag, value, span⟩, hf, ⟨⟩⟩ := List.mem_map.mp h
  exact ⟨span, hf⟩

/-- The place of a field is that of its tag and value among the contents. -/
theorem exists_of_mem_fieldsOf {offset : ℕ} {l : Contents} {f : Field}
    (hf : f ∈ fieldsOf offset l) :
    ∃ pre post, l = pre ++ (f.tag, f.value) :: post ∧
      f.span = ⟨offset + encodedLength pre + fieldPrefixLen,
        offset + encodedLength pre + fieldPrefixLen + f.value.length⟩ := by
  induction l generalizing offset with
  | nil => exact absurd hf (by simp [fieldsOf])
  | cons p l ih =>
    rcases List.mem_cons.mp hf with rfl | hf
    · exact ⟨[], l, rfl, rfl⟩
    · obtain ⟨pre, post, rfl, hspan⟩ := ih hf
      refine ⟨p :: pre, post, rfl, ?_⟩
      rw [hspan, encodedLength_cons, ← Nat.add_assoc, ← Nat.add_assoc]

/-- A document is read as its fields. -/
theorem Encodes.readAll {bytes : List UInt8} {l : Contents} (h : Encodes bytes l) :
    TlvReader.readAll bytes = .ok (fieldsOf 0 l) := by
  rw [TlvReader.readAll, h.foldFields, TlvReader.foldlM_push]
  rfl

/-- A buffer has at most one reading. -/
theorem Encodes.unique {bytes : List UInt8} {l l' : Contents} (h : Encodes bytes l)
    (h' : Encodes bytes l') : l = l' := by
  have hfields := Except.ok.inj (h.readAll.symm.trans h'.readAll)
  rw [← map_fieldsOf 0 l, hfields, map_fieldsOf]

/-- A loop that does not look at positions runs over the tags and values alone. -/
theorem foldlM_fieldsOf {σ : Type} {step : σ → Field → Except FormatError σ}
    (hstep : ∀ s tag value span span', step s ⟨tag, value, span⟩ = step s ⟨tag, value, span'⟩)
    (offset : ℕ) (l : Contents) (s : σ) :
    (fieldsOf offset l).foldlM step s = l.foldlM (fun s p ↦ step s ⟨p.1, p.2, ⟨0, 0⟩⟩) s := by
  induction l generalizing offset s with
  | nil => rfl
  | cons p l ih =>
    rw [fieldsOf, List.foldlM_cons, List.foldlM_cons, hstep s p.1 p.2 _ ⟨0, 0⟩]
    exact bind_congr fun s' ↦ ih _ s'

/-- Some of the fields of a document are those with some of its tags. -/
theorem eq_filter_of_sublist {l l' : Contents} (hsub : l'.Sublist l)
    (hnodup : (l.map Prod.fst).Nodup) :
    l' = l.filter fun p ↦ p.1 ∈ l'.map Prod.fst := by
  induction hsub with
  | slnil => rfl
  | @cons l' l p hsub ih =>
    rw [List.map_cons, List.nodup_cons] at hnodup
    -- a record that was left out has a tag of its own
    have hout : p.1 ∉ l'.map Prod.fst := fun hmem ↦ hnodup.1 ((hsub.map Prod.fst).subset hmem)
    rw [List.filter_cons_of_neg (by simpa using hout)]
    exact ih hnodup.2
  | @cons_cons l' l p hsub ih =>
    rw [List.map_cons, List.nodup_cons] at hnodup
    rw [List.filter_cons_of_pos (by simp)]
    refine congrArg (p :: ·) ((ih hnodup.2).trans (List.filter_congr fun p' hp' ↦ ?_))
    have hne : p'.1 ≠ p.1 := fun heq ↦ hnodup.1 (heq ▸ List.mem_map_of_mem hp')
    simp [hne]

/-! ### Optional fields -/

/-- An optional value takes no space if it is absent. -/
def optField (tag : UInt16) (value : Option (List UInt8)) : Contents :=
  value.toList.map fun v ↦ (tag, v)

@[simp] theorem optField_none (tag : UInt16) : optField tag none = [] := rfl

@[simp] theorem optField_some (tag : UInt16) (value : List UInt8) :
    optField tag (some value) = [(tag, value)] := rfl

theorem optField_tags_sublist (tag : UInt16) (value : Option (List UInt8)) :
    ((optField tag value).map Prod.fst).Sublist [tag] := by
  rcases value with - | value
  · exact List.nil_sublist _
  · exact List.Sublist.refl _

theorem forall_mem_optField {tag : UInt16} {value : Option (List UInt8)}
    {P : UInt16 × List UInt8 → Prop} :
    (∀ p ∈ optField tag value, P p) ↔ ∀ v, value = some v → P (tag, v) := by
  rcases value with - | value <;> simp

/-! ### Writing lists of fields -/

namespace TlvWriter

/-- Write fields one after the other, up to the first that is refused. -/
def putMany (w : TlvWriter) (l : Contents) : Except FormatError TlvWriter :=
  l.foldlM (fun w p ↦ w.put p.1 p.2) w

@[simp] theorem putMany_nil (w : TlvWriter) : w.putMany [] = .ok w := rfl

@[simp] theorem putMany_cons (w : TlvWriter) (tag : UInt16) (value : List UInt8) (l : Contents) :
    w.putMany ((tag, value) :: l) = w.put tag value >>= fun w ↦ w.putMany l := rfl

theorem putMany_append (w : TlvWriter) (l l' : Contents) :
    w.putMany (l ++ l') = w.putMany l >>= fun w ↦ w.putMany l' :=
  List.foldlM_append

theorem putOpt_eq_putMany (w : TlvWriter) (tag : UInt16) (value : Option (List UInt8)) :
    w.putOpt tag value = w.putMany (optField tag value) := by
  rcases value with - | v
  · rfl
  · rw [optField_some, putMany_cons]
    exact (bind_pure (w.put tag v)).symm

theorem Wrote.putMany {w w' : TlvWriter} {records : List Record} (hw : w.Wrote records)
    {l : Contents} (h : w.putMany l = .ok w') :
    ∃ written : List Record, written.map (fun r ↦ (r.tag, r.value)) = l ∧
      w'.Wrote (records ++ written) := by
  induction l generalizing w records with
  | nil =>
    obtain rfl := Except.ok.inj h
    exact ⟨[], rfl, by rwa [List.append_nil]⟩
  | cons p l ih =>
    obtain ⟨w₁, hput, h⟩ := Except.bind_eq_ok_iff.mp h
    obtain ⟨fits, hw₁⟩ := hw.put hput
    obtain ⟨written, hl, hwrote⟩ := ih hw₁ h
    refine ⟨⟨p.1, p.2, fits⟩ :: written, by rw [List.map_cons, hl], ?_⟩
    rwa [List.append_assoc] at hwrote

/-- Records in order are written. -/
theorem putMany_records {w : TlvWriter} {records : List Record}
    (h : Increasing w.lastTag records) :
    ∃ w', w.putMany (records.map fun r ↦ (r.tag, r.value)) = .ok w' ∧
      w'.buf = w.buf ++ bytesOf records := by
  induction records generalizing w with
  | nil => exact ⟨w, rfl, by simp⟩
  | cons rec records ih =>
    obtain ⟨horder, hrest⟩ := increasing_cons.mp h
    have hput : w.put rec.tag rec.value = .ok ⟨w.buf ++ rec.bytes, some rec.tag⟩ :=
      put_eq_ok_iff.mpr ⟨horder, rec.fits, rfl⟩
    obtain ⟨w', hw', hbuf⟩ := ih (w := ⟨w.buf ++ rec.bytes, some rec.tag⟩) hrest
    refine ⟨w', ?_, by rw [hbuf, bytesOf_cons, List.append_assoc]⟩
    rw [List.map_cons, putMany_cons, hput]
    exact hw'

/-- Write fields with a new writer and finish. -/
def writeAll (l : Contents) : Except FormatError (List UInt8) := do
  let w ← new.putMany l
  .ok w.finish

/-- **What is written.** Exactly the document of the given tags and values. -/
theorem writeAll_eq_ok_iff {l : Contents} {bytes : List UInt8} :
    writeAll l = .ok bytes ↔ Encodes bytes l := by
  constructor
  · intro h
    obtain ⟨w, hput, h⟩ := Except.bind_eq_ok_iff.mp h
    obtain ⟨written, hl, hwrote⟩ := wrote_new.putMany hput
    obtain rfl := Except.ok.inj h
    rw [List.nil_append] at hwrote
    exact ⟨written, hwrote.increasing, hwrote.buf_eq, hl⟩
  · rintro ⟨records, hinc, rfl, rfl⟩
    obtain ⟨w, hw, hbuf⟩ := putMany_records (w := new) hinc
    rw [writeAll, hw, Except.ok_bind, finish, hbuf]
    rfl

/-- Increasing tags and values that fit are written. -/
theorem exists_writeAll {l : Contents} (hinc : (l.map Prod.fst).Pairwise (· < ·))
    (hfits : ∀ p ∈ l, p.2.length < 2 ^ 32) :
    ∃ bytes, writeAll l = .ok bytes ∧ Encodes bytes l ∧ bytes.length = encodedLength l := by
  obtain ⟨bytes, h⟩ := Encodes.exists_iff.mpr ⟨hinc, hfits⟩
  exact ⟨bytes, writeAll_eq_ok_iff.mpr h, h, h.length_eq⟩

end TlvWriter

/-! ### Lists of values

A list is a document of its own: the tags are the positions, the values the elements. The reader does
not look at the tags, which need not be consecutive. -/

section Lists

variable {α : Type}

/-- The tag of a position. -/
def indexTag (index : ℕ) : Except FormatError UInt16 :=
  if index < 2 ^ 16 then .ok (UInt16.ofNat index) else .error .offsetOverflow

theorem indexTag_eq_ok_iff {index : ℕ} {tag : UInt16} :
    indexTag index = .ok tag ↔ index < 2 ^ 16 ∧ tag = UInt16.ofNat index := by
  rw [indexTag]
  split_ifs with h
  · simp only [Except.ok.injEq, h, true_and]
    exact eq_comm
  · exact ⟨nofun, fun hlt ↦ absurd hlt.1 h⟩

/-- Values under their positions, from a position on. -/
def numbered : ℕ → List (List UInt8) → Contents
  | _, [] => []
  | n, value :: values => (UInt16.ofNat n, value) :: numbered (n + 1) values

theorem map_snd_numbered (n : ℕ) (values : List (List UInt8)) :
    (numbered n values).map Prod.snd = values := by
  induction values generalizing n with
  | nil => rfl
  | cons value values ih => rw [numbered, List.map_cons, ih]

theorem le_of_mem_numbered {n : ℕ} {values : List (List UInt8)} (h : n + values.length ≤ 2 ^ 16)
    {p : UInt16 × List UInt8} (hp : p ∈ numbered n values) : n ≤ p.1.toNat := by
  induction values generalizing n with
  | nil => exact absurd hp (by simp [numbered])
  | cons value values ih =>
    rw [List.length_cons] at h
    rcases List.mem_cons.mp hp with rfl | hp
    · show n ≤ (UInt16.ofNat n).toNat
      rw [UInt16.toNat_ofNat_of_lt' (by omega : n < 2 ^ 16)]
    · have := ih (by omega) hp
      omega

/-- Positions are increasing tags. -/
theorem numbered_increasing {n : ℕ} {values : List (List UInt8)}
    (h : n + values.length ≤ 2 ^ 16) : ((numbered n values).map Prod.fst).Pairwise (· < ·) := by
  induction values generalizing n with
  | nil => exact List.Pairwise.nil
  | cons value values ih =>
    rw [List.length_cons] at h
    rw [numbered, List.map_cons, List.pairwise_cons]
    refine ⟨fun tag htag ↦ ?_, ih (by omega)⟩
    obtain ⟨p, hp, rfl⟩ := List.mem_map.mp htag
    have hle := le_of_mem_numbered (by omega) hp
    rw [UInt16.lt_iff_toNat_lt, UInt16.toNat_ofNat_of_lt' (by omega : n < 2 ^ 16)]
    omega

theorem encodedLength_numbered_le {bound : ℕ} {values : List (List UInt8)}
    (h : ∀ value ∈ values, value.length ≤ bound) (n : ℕ) :
    encodedLength (numbered n values) ≤ values.length * (fieldPrefixLen + bound) := by
  induction values generalizing n with
  | nil => exact Nat.zero_le _
  | cons value values ih =>
    obtain ⟨hvalue, hvalues⟩ := List.forall_mem_cons.mp h
    have := ih hvalues (n + 1)
    rw [numbered, encodedLength_cons, List.length_cons, Nat.add_mul]
    omega

namespace TlvWriter

/-- Write the record of each element, given its position. -/
def putEach (record : ℕ → α → Except FormatError (UInt16 × List UInt8)) :
    ℕ → TlvWriter → List α → Except FormatError TlvWriter
  | _, w, [] => .ok w
  | n, w, a :: items => do
    let field ← record n a
    let w ← w.put field.1 field.2
    putEach record (n + 1) w items

/-- Write the record of each element with a new writer and finish. -/
def writeEach (record : ℕ → α → Except FormatError (UInt16 × List UInt8)) (items : List α) :
    Except FormatError (List UInt8) := do
  let w ← putEach record 0 new items
  .ok w.finish

variable {record : ℕ → α → Except FormatError (UInt16 × List UInt8)} {Value : α → List UInt8 → Prop}

/-- Writing a numbered list, item by item. -/
theorem putEach_eq_ok_iff
    (hrecord : ∀ n a tag value, record n a = .ok (tag, value) ↔
      n < 2 ^ 16 ∧ tag = UInt16.ofNat n ∧ Value a value)
    {n : ℕ} {w w' : TlvWriter} {items : List α} (hn : n ≤ 2 ^ 16) :
    putEach record n w items = .ok w' ↔
      n + items.length ≤ 2 ^ 16 ∧ ∃ values, List.Forall₂ Value items values ∧
        w.putMany (numbered n values) = .ok w' := by
  induction items generalizing n w with
  | nil =>
    simp only [putEach, List.forall₂_nil_left_iff, exists_eq_left, numbered, putMany_nil,
      List.length_nil, Nat.add_zero, hn, true_and]
  | cons a items ih =>
    rw [putEach, Except.bind_eq_ok_iff, List.length_cons]
    constructor
    · rintro ⟨⟨tag, value⟩, hrec, h⟩
      obtain ⟨w₁, hput, hrest⟩ := Except.bind_eq_ok_iff.mp h
      obtain ⟨hlt, rfl, hvalue⟩ := (hrecord n a tag value).mp hrec
      obtain ⟨hlen, values, hvalues, hmany⟩ := (ih (by omega)).mp hrest
      refine ⟨by omega, value :: values, .cons hvalue hvalues, ?_⟩
      rw [numbered, putMany_cons, hput, Except.ok_bind, hmany]
    · rintro ⟨hlen, all, hall, hmany⟩
      obtain ⟨value, values, hvalue, hvalues, rfl⟩ := List.forall₂_cons_left_iff.mp hall
      rw [numbered, putMany_cons] at hmany
      obtain ⟨w₁, hput, hmany⟩ := Except.bind_eq_ok_iff.mp hmany
      refine ⟨_, (hrecord n a _ value).mpr ⟨by omega, rfl, hvalue⟩, ?_⟩
      refine Except.bind_eq_ok_iff.mpr ⟨w₁, hput, (ih (by omega)).mpr ⟨by omega, ?_⟩⟩
      exact ⟨values, hvalues, hmany⟩

/-- **What is written for a list.** The values of its elements, under their positions. -/
theorem writeEach_eq_ok_iff
    (hrecord : ∀ n a tag value, record n a = .ok (tag, value) ↔
      n < 2 ^ 16 ∧ tag = UInt16.ofNat n ∧ Value a value)
    {items : List α} {bytes : List UInt8} :
    writeEach record items = .ok bytes ↔
      items.length ≤ 2 ^ 16 ∧ ∃ values, List.Forall₂ Value items values ∧
        Encodes bytes (numbered 0 values) := by
  simp only [← writeAll_eq_ok_iff, writeAll, writeEach, Except.bind_eq_ok_iff,
    putEach_eq_ok_iff hrecord (Nat.zero_le _), Nat.zero_add]
  constructor
  · rintro ⟨w, ⟨hlen, values, hvalues, hmany⟩, h⟩
    exact ⟨hlen, values, hvalues, w, hmany, h⟩
  · rintro ⟨hlen, values, hvalues, w, hmany, h⟩
    exact ⟨w, ⟨hlen, values, hvalues, hmany⟩, h⟩

/-- A list whose elements can be written in a bounded space can be written. -/
theorem exists_writeEach {bound : ℕ}
    (hrecord : ∀ n a tag value, record n a = .ok (tag, value) ↔
      n < 2 ^ 16 ∧ tag = UInt16.ofNat n ∧ Value a value)
    {items : List α} (hvalue : ∀ a ∈ items, ∃ value, Value a value ∧ value.length ≤ bound)
    (hlen : items.length ≤ 2 ^ 16) (hshort : items.length * (fieldPrefixLen + bound) < 2 ^ 32) :
    ∃ bytes, writeEach record items = .ok bytes ∧
      bytes.length ≤ items.length * (fieldPrefixLen + bound) := by
  obtain ⟨values, hvalues, hbound⟩ : ∃ values, List.Forall₂ Value items values ∧
      ∀ value ∈ values, value.length ≤ bound := by
    clear hlen hshort
    induction items with
    | nil => exact ⟨[], .nil, nofun⟩
    | cons a items ih =>
      obtain ⟨⟨value, ha, hle⟩, hitems⟩ := List.forall_mem_cons.mp hvalue
      obtain ⟨values, hvalues, hbound⟩ := ih hitems
      exact ⟨value :: values, .cons ha hvalues, List.forall_mem_cons.mpr ⟨hle, hbound⟩⟩
  have hsame := hvalues.length_eq
  have hle := encodedLength_numbered_le hbound 0
  rw [← hsame] at hle
  obtain ⟨bytes, henc, -⟩ := Encodes.exists_of_short
    (numbered_increasing (by rw [Nat.zero_add, ← hsame]; exact hlen)) (hle.trans_lt hshort)
  exact ⟨bytes, (writeEach_eq_ok_iff hrecord).mpr ⟨hlen, values, hvalues, henc⟩,
    henc.length_eq ▸ hle⟩

end TlvWriter

namespace TlvReader

/-- One more element of a list of limited length. -/
def collectStep (limit : ℕ) (full : ℕ → FormatError) (parse : List UInt8 → Except FormatError α)
    (items : List α) (field : Field) : Except FormatError (List α) := do
  refuseIf (limit ≤ items.length) (full items.length)
  let item ← parse field.value
  .ok (items ++ [item])

/-- Read a list of limited length, after the elements already there. -/
def collect (limit : ℕ) (full : ℕ → FormatError) (parse : List UInt8 → Except FormatError α)
    (bytes : List UInt8) (items : List α) : Except FormatError (List α) :=
  foldFields (collectStep limit full parse) (new bytes) items

variable {limit : ℕ} {full : ℕ → FormatError} {parse : List UInt8 → Except FormatError α}

/-- Collecting numbered items, by induction on the records. -/
theorem foldlM_collectStep {offset : ℕ} {l : Contents} {items items' : List α} :
    (fieldsOf offset l).foldlM (collectStep limit full parse) items = .ok items' ↔
      ∃ more, List.Forall₂ (fun p a ↦ parse p.2 = .ok a) l more ∧ items' = items ++ more ∧
        (more = [] ∨ items'.length ≤ limit) := by
  induction l generalizing offset items with
  | nil =>
    simp only [fieldsOf, Except.foldlM_nil, Except.ok.injEq, List.forall₂_nil_left_iff,
      exists_eq_left, List.append_nil, true_or, and_true]
    exact eq_comm
  | cons p l ih =>
    rw [fieldsOf, List.foldlM_cons, Except.bind_eq_ok_iff]
    constructor
    · rintro ⟨items₁, hstep, h⟩
      obtain ⟨hroom, hstep⟩ := Except.check_bind_eq_ok_iff.mp hstep
      rw [Except.refuseIf_eq_ok_iff] at hroom
      obtain ⟨item, hparse, hstep⟩ := Except.bind_eq_ok_iff.mp hstep
      obtain rfl := Except.ok.inj hstep
      obtain ⟨more, hmore, rfl, hlen⟩ := ih.mp h
      refine ⟨item :: more, .cons hparse hmore, by rw [List.append_assoc]; rfl, Or.inr ?_⟩
      -- the bound is checked before each item, so the last check is the one that counts
      rcases hlen with rfl | hlen
      · rw [List.append_nil, List.length_append, List.length_singleton]
        omega
      · exact hlen
    · rintro ⟨all, hall, rfl, hlen⟩
      obtain ⟨item, more, hparse, hmore, rfl⟩ := List.forall₂_cons_left_iff.mp hall
      have hroom : items.length + (more.length + 1) ≤ limit := by
        rcases hlen with h | hlen
        · exact absurd h (by simp)
        · rwa [List.length_append, List.length_cons] at hlen
      refine ⟨items ++ [item], ?_, ih.mpr ⟨more, hmore, by rw [List.append_assoc]; rfl, ?_⟩⟩
      · refine Except.check_bind_eq_ok_iff.mpr ⟨Except.refuseIf_eq_ok_iff.mpr (by omega), ?_⟩
        rw [hparse, Except.ok_bind]
      · rw [List.length_append, List.length_cons]
        exact Or.inr hroom

/-- **What is read as a list.** A document whose values parse, and no more of them than allowed. -/
theorem collect_eq_ok_iff {bytes : List UInt8} {items items' : List α} :
    collect limit full parse bytes items = .ok items' ↔
      ∃ l more, Encodes bytes l ∧ List.Forall₂ (fun p a ↦ parse p.2 = .ok a) l more ∧
        items' = items ++ more ∧ (more = [] ∨ items'.length ≤ limit) := by
  constructor
  · intro h
    obtain ⟨l, henc, hfold⟩ := exists_encodes_of_foldFields h
    obtain ⟨more, hmore⟩ := foldlM_collectStep.mp hfold
    exact ⟨l, more, henc, hmore⟩
  · rintro ⟨l, more, henc, hmore⟩
    rw [collect, henc.foldFields]
    exact foldlM_collectStep.mpr ⟨more, hmore⟩

/-- A list that was read is not too long, and its elements are what the values parse to. -/
theorem forall_of_collect {P : α → Prop} {bytes : List UInt8} {items items' : List α}
    (h : collect limit full parse bytes items = .ok items')
    (hparse : ∀ {value a}, parse value = .ok a → P a) (hlen : items.length ≤ limit)
    (hitems : ∀ a ∈ items, P a) : items'.length ≤ limit ∧ ∀ a ∈ items', P a := by
  obtain ⟨l, -, hfold⟩ := exists_encodes_of_foldFields h
  refine Except.foldlM_invariant (P := fun items ↦ items.length ≤ limit ∧ ∀ a ∈ items, P a) hfold
    ⟨hlen, hitems⟩ ?_
  rintro f - items items' ⟨-, hitems⟩ hstep
  obtain ⟨hroom, hstep⟩ := Except.check_bind_eq_ok_iff.mp hstep
  obtain ⟨item, hitem, hstep⟩ := Except.bind_eq_ok_iff.mp hstep
  obtain rfl := Except.ok.inj hstep
  rw [Except.refuseIf_eq_ok_iff, not_le] at hroom
  refine ⟨by rwa [List.length_append, List.length_singleton], fun a ha ↦ ?_⟩
  rcases List.mem_append.mp ha with ha | ha
  · exact hitems a ha
  · exact List.mem_singleton.mp ha ▸ hparse hitem

/-- A list that was written is read back, if each of its values is. -/
theorem collect_numbered {bytes : List UInt8} {values : List (List UInt8)} {items : List α}
    (henc : Encodes bytes (numbered 0 values))
    (hread : List.Forall₂ (fun value a ↦ parse value = .ok a) values items)
    (hlen : items.length ≤ limit) : collect limit full parse bytes [] = .ok items := by
  rw [← map_snd_numbered 0 values] at hread
  exact collect_eq_ok_iff.mpr ⟨_, items, henc, List.forall₂_map_left_iff.mp hread, rfl, Or.inr hlen⟩

/-- A list that was written is read back, if each of its elements is. -/
theorem collect_writeEach {record : ℕ → α → Except FormatError (UInt16 × List UInt8)}
    {Value : α → List UInt8 → Prop}
    (hrecord : ∀ n a tag value, record n a = .ok (tag, value) ↔
      n < 2 ^ 16 ∧ tag = UInt16.ofNat n ∧ Value a value)
    (hread : ∀ {a value}, Value a value → parse value = .ok a) {items : List α} {bytes : List UInt8}
    (h : TlvWriter.writeEach record items = .ok bytes) (hlen : items.length ≤ limit) :
    collect limit full parse bytes [] = .ok items := by
  obtain ⟨-, values, hvalues, henc⟩ := (TlvWriter.writeEach_eq_ok_iff hrecord).mp h
  exact collect_numbered henc (hvalues.imp fun _ _ ↦ hread).flip hlen

/-- Values that are no longer than those of a document, under their positions. -/
theorem encodedLength_numbered_le_of_forall₂ {l : Contents} {values : List (List UInt8)}
    (h : List.Forall₂ (fun p value ↦ value.length ≤ p.2.length) l values) (n : ℕ) :
    encodedLength (numbered n values) ≤ encodedLength l := by
  induction h generalizing n with
  | nil => exact Nat.le_refl _
  | cons hle _ ih =>
    rw [numbered, encodedLength_cons, encodedLength_cons]
    exact Nat.add_le_add (Nat.add_le_add_left hle _) (ih (n + 1))

/-- A list that was read can be written, in no more space, if each of its elements can. -/
theorem exists_writeEach_of_collect {record : ℕ → α → Except FormatError (UInt16 × List UInt8)}
    {Value : α → List UInt8 → Prop}
    (hrecord : ∀ n a tag value, record n a = .ok (tag, value) ↔
      n < 2 ^ 16 ∧ tag = UInt16.ofNat n ∧ Value a value)
    (hwrite : ∀ {value a}, parse value = .ok a → ∃ value', Value a value' ∧ value'.length ≤ value.length)
    {items : List α} {bytes : List UInt8} (h : collect limit full parse bytes [] = .ok items)
    (hlimit : limit ≤ 2 ^ 16) :
    ∃ bytes', TlvWriter.writeEach record items = .ok bytes' ∧ bytes'.length ≤ bytes.length := by
  have hlen := (forall_of_collect (P := fun _ ↦ True) h (fun _ ↦ trivial) (Nat.zero_le _) nofun).1
  obtain ⟨l, items, henc, hparsed, rfl, -⟩ := collect_eq_ok_iff.mp h
  have hfits := henc.fits
  obtain ⟨values, hvalues, hle, hfits⟩ : ∃ values, List.Forall₂ Value items values ∧
      List.Forall₂ (fun p value ↦ value.length ≤ p.2.length) l values ∧
      ∀ value ∈ values, value.length < 2 ^ 32 := by
    clear henc hlen h
    induction hparsed with
    | nil => exact ⟨[], .nil, .nil, nofun⟩
    | cons hp _ ih =>
      obtain ⟨hfit, hfits⟩ := List.forall_mem_cons.mp hfits
      obtain ⟨value, hvalue, hle⟩ := hwrite hp
      obtain ⟨values, hvalues, hles, hfits⟩ := ih hfits
      exact ⟨value :: values, .cons hvalue hvalues, .cons hle hles,
        List.forall_mem_cons.mpr ⟨hle.trans_lt hfit, hfits⟩⟩
  have hshort := encodedLength_numbered_le_of_forall₂ hle 0
  obtain ⟨bytes', henc'⟩ : ∃ bytes', Encodes bytes' (numbered 0 values) := by
    refine Encodes.exists_iff.mpr ⟨numbered_increasing ?_, fun p hp ↦ ?_⟩
    · rw [Nat.zero_add, ← hvalues.length_eq]
      exact hlen.trans hlimit
    · have hmem : p.2 ∈ (numbered 0 values).map Prod.snd := List.mem_map_of_mem hp
      rw [map_snd_numbered] at hmem
      exact hfits p.2 hmem
  refine ⟨bytes', (TlvWriter.writeEach_eq_ok_iff hrecord).mpr
    ⟨hlen.trans hlimit, values, hvalues, henc'⟩, ?_⟩
  rw [henc'.length_eq, henc.length_eq]
  exact hshort

end TlvReader

end Lists

end OpenCrate.Format
