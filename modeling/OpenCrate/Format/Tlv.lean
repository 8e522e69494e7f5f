import OpenCrate.Data.Bytes
import OpenCrate.Data.Except
import OpenCrate.Data.MachineInt
import Mathlib.Data.List.Chain

/-!
# TLV fields with strictly increasing tags

`TlvReader` and `TlvWriter` of `oc-format`. A field is a tag in two bytes, a length in four, and the
value; tags strictly increase, so a list of fields has one encoding and a buffer at most one
reading.

`Record` and `Document` are the abstract side: a record is what a field can hold, a document a list
of records with increasing tags. `TlvReader.foldFields` is the loop of every codec. Its two rules
say all that a codec needs to know: over the encoding of a document it is a fold over the spanned
fields (`foldFields_bytes`), and if it succeeds the buffer is such an encoding
(`exists_of_foldFields_eq_ok`).

Offsets are natural numbers. A slice is far shorter than the range of `usize` and a value shorter
than `2 ^ 32`, so the sums of offsets that the source checks do not overflow.
-/

namespace OpenCrate.Format

open Except (refuseIf okOr)

/-- Structural parsing errors. -/
inductive FormatError where
  | badMagic
  | headerTooLarge (declared : UInt32)
  | truncated (need have_ : ℕ)
  | offsetOverflow
  | badChunkSize (got : UInt32)
  | chunkCountMismatch (expected got : UInt32)
  | chunkOutOfRange (index count : UInt32)
  | badFieldLength (tag : UInt16) (len : ℕ)
  | fieldsOutOfOrder (previous found : UInt16)
  | unknownCriticalField (tag : UInt16)
  | missingField (tag : UInt16)
  | degenerateKey (tag : UInt16)
  | notUtf8 (tag : UInt16)
  | badAddressByte (tag : UInt16) (byte : UInt8)
  | badNoteChar (tag : UInt16) (code : UInt32)
  | readerTooOld (need have_ : UInt16)
  | unsupportedClass (class_ : UInt8)
  | unsupportedContainerVersion (version first max : UInt16)
  | unsupportedLeaseVersion (version : UInt16)
  | contentDescTooLarge (declared : UInt32)
  | badContentMac
  | badHeaderSignature
  deriving DecidableEq, Repr

/-- Tags no greater than this value are critical. -/
def critTagMax : UInt16 := 0x7FFF

/-- Length of a field's tag and length. -/
def fieldPrefixLen : ℕ := 6

/-- A range of positions in a buffer. -/
structure Span where
  start : ℕ
  stop : ℕ
  deriving DecidableEq, Repr

/-! ### Fields -/

/-- Parsed field with the exact range of its value in the original buffer. -/
structure Field where
  tag : UInt16
  value : List UInt8
  span : Span
  deriving DecidableEq, Repr

namespace Field

/-- The refusal of a value whose length does not fit its type. -/
def badLength (f : Field) : FormatError := .badFieldLength f.tag f.value.length

/-- Value as exactly one byte. -/
def u8 (f : Field) : Except FormatError UInt8 :=
  match f.value with
  | [b] => .ok b
  | _ => .error f.badLength

/-- Value as a little-endian integer of exactly its width. -/
def le {τ : Type} [LeInt τ] (f : Field) : Except FormatError τ := okOr (ofLeBytes? f.value) f.badLength

/-- Value as a little-endian `u16`. -/
def u16 (f : Field) : Except FormatError UInt16 := f.le

/-- Value as a little-endian `u32`. -/
def u32 (f : Field) : Except FormatError UInt32 := f.le

/-- Value as a little-endian `u64`. -/
def u64 (f : Field) : Except FormatError UInt64 := f.le

/-- Value as an array of an exact length. -/
def array (n : ℕ) (f : Field) : Except FormatError (List.Vector UInt8 n) :=
  if h : f.value.length = n then .ok ⟨f.value, h⟩ else .error f.badLength

theorem u8_eq_ok_iff {f : Field} {b : UInt8} : f.u8 = .ok b ↔ f.value = [b] := by
  unfold u8
  split
  · next b' h => rw [h, Except.ok.injEq, List.singleton_inj]
  · next h => exact ⟨nofun, fun heq ↦ absurd heq (h b)⟩

theorem le_eq_ok_iff {τ : Type} [LeInt τ] {f : Field} {x : τ} :
    f.le = .ok x ↔ f.value = toLeBytes x := by
  rw [le, Except.okOr_eq_ok_iff, ofLeBytes?_eq_some_iff]

theorem array_eq_ok_iff {n : ℕ} {f : Field} {v : List.Vector UInt8 n} :
    f.array n = .ok v ↔ f.value = v.toList := by
  constructor
  · intro h
    unfold array at h
    split_ifs at h
    exact Except.ok.inj h ▸ rfl
  · intro h
    obtain ⟨tag, value, span⟩ := f
    subst h
    exact dif_pos v.toList_length

@[simp] theorem u8_mk (tag : UInt16) (b : UInt8) (span : Span) : u8 ⟨tag, [b], span⟩ = .ok b := rfl

@[simp] theorem le_mk {α : Type} [LeInt α] (tag : UInt16) (x : α) (span : Span) :
    le ⟨tag, toLeBytes x, span⟩ = .ok x :=
  le_eq_ok_iff.mpr rfl

@[simp] theorem u16_mk (tag x : UInt16) (span : Span) : u16 ⟨tag, toLeBytes x, span⟩ = .ok x :=
  le_eq_ok_iff.mpr rfl

@[simp] theorem u32_mk (tag : UInt16) (x : UInt32) (span : Span) :
    u32 ⟨tag, toLeBytes x, span⟩ = .ok x :=
  le_eq_ok_iff.mpr rfl

@[simp] theorem u64_mk (tag : UInt16) (x : UInt64) (span : Span) :
    u64 ⟨tag, toLeBytes x, span⟩ = .ok x :=
  le_eq_ok_iff.mpr rfl

@[simp] theorem array_mk {n : ℕ} (tag : UInt16) (v : List.Vector UInt8 n) (span : Span) :
    array n ⟨tag, v.toList, span⟩ = .ok v :=
  array_eq_ok_iff.mpr rfl

end Field

/-- A tag follows the one before it. The only rule of canonicalization in the format. -/
def checkOrder (lastTag : Option UInt16) (tag : UInt16) : Except FormatError Unit :=
  match lastTag with
  | some prev => refuseIf (tag ≤ prev) (.fieldsOutOfOrder prev tag)
  | none => .ok ()

/-! ### The reader -/

/-- Sequential field reading with increasing-tag validation. -/
structure TlvReader where
  buf : List UInt8
  pos : ℕ
  lastTag : Option UInt16

namespace TlvReader

/-- Start reading. -/
def new (buf : List UInt8) : TlvReader := ⟨buf, 0, none⟩

/-- Next field and the reader after it, or `none` at the end of the buffer. -/
def nextField (r : TlvReader) : Except FormatError (Option (Field × TlvReader)) :=
  if r.buf.length ≤ r.pos then .ok none
  else do
    let headerEnd := r.pos + fieldPrefixLen
    let fieldPrefix ← okOr (slice? r.buf r.pos headerEnd) (.truncated headerEnd r.buf.length)
    let tag ← okOr ((slice? fieldPrefix 0 2).bind ofLeBytes?) .offsetOverflow
    let len : UInt32 ← okOr ((slice? fieldPrefix 2 6).bind ofLeBytes?) .offsetOverflow
    -- the order is checked before the length, so a tag out of order is the error that is reported
    checkOrder r.lastTag tag
    let valueEnd := headerEnd + len.toNat
    let value ← okOr (slice? r.buf headerEnd valueEnd) (.truncated valueEnd r.buf.length)
    .ok (some (⟨tag, value, ⟨headerEnd, valueEnd⟩⟩, ⟨r.buf, valueEnd, some tag⟩))

end TlvReader

/-! ### The writer -/

/-- Write fields while enforcing increasing tags, matching reader validation. -/
structure TlvWriter where
  buf : List UInt8
  lastTag : Option UInt16

namespace TlvWriter

/-- A writer with nothing written. -/
def new : TlvWriter := ⟨[], none⟩

/-- Write a field. Tags must be increasing. -/
def put (w : TlvWriter) (tag : UInt16) (value : List UInt8) : Except FormatError TlvWriter := do
  checkOrder w.lastTag tag
  refuseIf (2 ^ 32 ≤ value.length) (.badFieldLength tag value.length)
  .ok ⟨w.buf ++ (toLeBytes tag ++ toLeBytes (UInt32.ofNat value.length) ++ value), some tag⟩

/-- Write an optional field: `none` takes no space. -/
def putOpt (w : TlvWriter) (tag : UInt16) (value : Option (List UInt8)) :
    Except FormatError TlvWriter :=
  match value with
  | some v => w.put tag v
  | none => .ok w

/-- Finished bytes. -/
def finish (w : TlvWriter) : List UInt8 := w.buf

end TlvWriter

/-- Decision for an unknown tag. -/
inductive UnknownTag where
  | refuse
  | ignore
  deriving DecidableEq, Repr

/-- How to handle a field whose tag the reader does not recognize. -/
def unknownTagAction (tag : UInt16) : UnknownTag :=
  if tag ≤ critTagMax then .refuse else .ignore

/-! ### Documents -/

/-- What a field can hold: a tag, and a value whose length fits in four bytes. -/
@[ext]
structure Record where
  tag : UInt16
  value : List UInt8
  fits : value.length < 2 ^ 32

namespace Record

/-- The field's bytes. -/
def bytes (r : Record) : List UInt8 :=
  toLeBytes r.tag ++ toLeBytes (UInt32.ofNat r.value.length) ++ r.value

/-- The field as it is read at an offset. -/
def fieldAt (r : Record) (offset : ℕ) : Field :=
  ⟨r.tag, r.value, ⟨offset + fieldPrefixLen, offset + fieldPrefixLen + r.value.length⟩⟩

@[simp] theorem length_bytes (r : Record) : r.bytes.length = fieldPrefixLen + r.value.length := by
  simp only [bytes, List.length_append, length_toLeBytes, LeInt.width, fieldPrefixLen]

end Record

/-- The bytes of a list of records. -/
def bytesOf (records : List Record) : List UInt8 := records.flatMap Record.bytes

/-- The fields of a list of records as they are read from an offset on. -/
def fieldsAt : ℕ → List Record → List Field
  | _, [] => []
  | offset, r :: rest => r.fieldAt offset :: fieldsAt (offset + r.bytes.length) rest

/-- The tags increase, from the last one on. -/
def Increasing (lastTag : Option UInt16) (records : List Record) : Prop :=
  (lastTag.toList ++ records.map Record.tag).IsChain (· < ·)

theorem increasing_cons {lastTag : Option UInt16} {r : Record} {records : List Record} :
    Increasing lastTag (r :: records) ↔
      (∀ prev, lastTag = some prev → prev < r.tag) ∧ Increasing (some r.tag) records := by
  rcases lastTag with - | prev
  · simp [Increasing]
  · simp [Increasing, List.isChain_cons_cons]

theorem increasing_none {records : List Record} :
    Increasing none records ↔ (records.map Record.tag).Pairwise (· < ·) :=
  List.isChain_iff_pairwise

@[simp] theorem bytesOf_nil : bytesOf [] = [] := rfl

@[simp] theorem bytesOf_cons (r : Record) (records : List Record) :
    bytesOf (r :: records) = r.bytes ++ bytesOf records := rfl

/-- Records are written one after the other. -/
theorem bytesOf_append (records records' : List Record) :
    bytesOf (records ++ records') = bytesOf records ++ bytesOf records' :=
  List.flatMap_append

theorem checkOrder_eq_ok_iff {lastTag : Option UInt16} {tag : UInt16} {u : Unit} :
    checkOrder lastTag tag = .ok u ↔ ∀ prev, lastTag = some prev → prev < tag := by
  rcases lastTag with - | prev
  · simp [checkOrder]
  · simp [checkOrder]

/-! ### One field -/

namespace TlvReader

/-- At the end of the buffer there is nothing more. -/
theorem nextField_of_le {r : TlvReader} (h : r.buf.length ≤ r.pos) : r.nextField = .ok none := by
  rw [nextField, if_pos h]

/-- Only at the end of the buffer there is nothing more. -/
theorem le_of_nextField_eq_ok_none {r : TlvReader} (h : r.nextField = .ok none) :
    r.buf.length ≤ r.pos := by
  rw [nextField] at h
  split at h
  · next hle => exact hle
  · simp [Except.bind_eq_ok_iff] at h

/-- The six bytes before a value are its tag and its length. -/
theorem readPrefix_toLeBytes (tag : UInt16) (len : UInt32) :
    (slice? (toLeBytes tag ++ toLeBytes len) 0 2).bind ofLeBytes? = some tag ∧
      (slice? (toLeBytes tag ++ toLeBytes len) 2 6).bind ofLeBytes? = some len := by
  have htag := slice?_append [] (toLeBytes tag) (toLeBytes len)
  have hlen := slice?_append (toLeBytes tag) (toLeBytes len) []
  rw [List.append_nil, length_toLeBytes, length_toLeBytes] at hlen
  rw [List.nil_append, length_toLeBytes] at htag
  exact ⟨by rw [show slice? _ 0 2 = some (toLeBytes tag) from htag, Option.bind_some,
      ofLeBytes?_toLeBytes],
    by rw [show slice? _ 2 6 = some (toLeBytes len) from hlen, Option.bind_some,
      ofLeBytes?_toLeBytes]⟩

/-- Conversely, six bytes that read as a tag and a length are these. -/
theorem eq_toLeBytes_of_readPrefix {fieldPrefix : List UInt8} {tag : UInt16} {len : UInt32}
    (hsix : fieldPrefix.length = 6) (htag : (slice? fieldPrefix 0 2).bind ofLeBytes? = some tag)
    (hlen : (slice? fieldPrefix 2 6).bind ofLeBytes? = some len) :
    fieldPrefix = toLeBytes tag ++ toLeBytes len := by
  obtain ⟨tagBytes, htagBytes, htag⟩ := Option.bind_eq_some_iff.mp htag
  obtain ⟨lenBytes, hlenBytes, hlen⟩ := Option.bind_eq_some_iff.mp hlen
  obtain ⟨-, -, rfl⟩ := slice?_eq_some_iff.mp htagBytes
  obtain ⟨-, -, rfl⟩ := slice?_eq_some_iff.mp hlenBytes
  rw [ofLeBytes?_eq_some_iff, List.drop_zero] at htag
  rw [ofLeBytes?_eq_some_iff, List.take_of_length_le (by rw [List.length_drop]; omega)] at hlen
  rw [← htag, ← hlen, List.take_append_drop]

/-- A record in order is read as its field. -/
theorem nextField_bytes (pre rest : List UInt8) {lastTag : Option UInt16} {rec : Record}
    (horder : ∀ prev, lastTag = some prev → prev < rec.tag) :
    nextField ⟨pre ++ (rec.bytes ++ rest), pre.length, lastTag⟩ =
      .ok (some (rec.fieldAt pre.length,
        ⟨pre ++ (rec.bytes ++ rest), pre.length + rec.bytes.length, some rec.tag⟩)) := by
  have hhead : slice? (pre ++ (rec.bytes ++ rest)) pre.length (pre.length + fieldPrefixLen) =
      some (toLeBytes rec.tag ++ toLeBytes (UInt32.ofNat rec.value.length)) := by
    have := slice?_append pre (toLeBytes rec.tag ++ toLeBytes (UInt32.ofNat rec.value.length))
      (rec.value ++ rest)
    rwa [List.length_append, length_toLeBytes, length_toLeBytes, ← List.append_assoc _ rec.value]
      at this
  have hvalue : slice? (pre ++ (rec.bytes ++ rest)) (pre.length + fieldPrefixLen)
      (pre.length + fieldPrefixLen + rec.value.length) = some rec.value := by
    have := slice?_append
      (pre ++ (toLeBytes rec.tag ++ toLeBytes (UInt32.ofNat rec.value.length))) rec.value rest
    rwa [List.length_append, List.length_append, length_toLeBytes, length_toLeBytes,
      List.append_assoc, ← List.append_assoc _ rec.value] at this
  have hlen : (UInt32.ofNat rec.value.length).toNat = rec.value.length :=
    UInt32.toNat_ofNat_of_lt' rec.fits
  obtain ⟨htag, hlength⟩ := readPrefix_toLeBytes rec.tag (UInt32.ofNat rec.value.length)
  have hmore : ¬(pre ++ (rec.bytes ++ rest)).length ≤ pre.length := by
    simp only [List.length_append, Record.length_bytes, fieldPrefixLen]
    omega
  have hcheck : checkOrder lastTag rec.tag = .ok () := checkOrder_eq_ok_iff.mpr horder
  rw [nextField, if_neg hmore]
  simp only [hhead, htag, hlength, Except.okOr_some, Except.ok_bind, hcheck, hlen, hvalue]
  rw [Record.fieldAt, Record.length_bytes, Nat.add_assoc]

/-- What is read is a record in order. -/
theorem nextField_eq_ok_some {r r' : TlvReader} {f : Field}
    (h : r.nextField = .ok (some (f, r'))) :
    ∃ (rec : Record) (pre rest : List UInt8), r.buf = pre ++ (rec.bytes ++ rest) ∧
      r.pos = pre.length ∧ (∀ prev, r.lastTag = some prev → prev < rec.tag) ∧
      f = rec.fieldAt r.pos ∧ r' = ⟨r.buf, r.pos + rec.bytes.length, some rec.tag⟩ := by
  rw [nextField] at h
  split at h
  · exact absurd h (by simp)
  · next hmore =>
    obtain ⟨fieldPrefix, hhead, h⟩ := Except.bind_eq_ok_iff.mp h
    obtain ⟨tag, htag, h⟩ := Except.bind_eq_ok_iff.mp h
    obtain ⟨len, hlen, h⟩ := Except.bind_eq_ok_iff.mp h
    obtain ⟨horder, h⟩ := Except.check_bind_eq_ok_iff.mp h
    obtain ⟨value, hvalue, h⟩ := Except.bind_eq_ok_iff.mp h
    rw [Except.okOr_eq_ok_iff] at hhead htag hlen hvalue
    -- the prefix is a tag and a length, and the value has that length
    obtain ⟨hdrop, hlength⟩ := drop_eq_append_of_slice? hhead
    obtain ⟨hdrop', hlength'⟩ := drop_eq_append_of_slice? hvalue
    have hvalueLen : value.length = len.toNat := by omega
    have hfits : value.length < 2 ^ 32 := hvalueLen ▸ len.toNat_lt
    have hhead' := eq_toLeBytes_of_readPrefix
      (by rw [hlength, Nat.add_sub_cancel_left]; rfl) htag hlen
    obtain ⟨rfl, rfl⟩ := Prod.mk.inj (Option.some_inj.mp (Except.ok.inj h))
    refine ⟨⟨tag, value, hfits⟩, r.buf.take r.pos, r.buf.drop (r.pos + fieldPrefixLen + len.toNat),
      ?_, ?_, checkOrder_eq_ok_iff.mp horder, ?_, ?_⟩
    · rw [Record.bytes, hvalueLen, UInt32.ofNat_toNat, ← hhead', List.append_assoc, ← hdrop',
        ← hdrop, List.take_append_drop]
    · rw [List.length_take]
      omega
    · rw [Record.fieldAt, hvalueLen]
    · rw [Record.length_bytes, hvalueLen, Nat.add_assoc]

/-- The position strictly increases on every step, and stays in the buffer. -/
theorem pos_lt_of_nextField {r r' : TlvReader} {f : Field}
    (h : r.nextField = .ok (some (f, r'))) : r'.buf.length - r'.pos < r.buf.length - r.pos := by
  obtain ⟨rec, pre, rest, hbuf, hpos, -, -, rfl⟩ := nextField_eq_ok_some h
  simp only [hbuf, hpos, List.length_append, Record.length_bytes, fieldPrefixLen]
  omega

/-! ### The loop -/

/-- The loop of every codec: take the fields one after the other, until the end or a refusal. -/
def foldFields {σ : Type} (step : σ → Field → Except FormatError σ) (r : TlvReader) (s : σ) :
    Except FormatError σ :=
  match _h : r.nextField with
  | .error e => .error e
  | .ok none => .ok s
  | .ok (some (f, r')) =>
    match step s f with
    | .error e => .error e
    | .ok s' => foldFields step r' s'
termination_by r.buf.length - r.pos
decreasing_by exact pos_lt_of_nextField _h

variable {σ : Type} {step : σ → Field → Except FormatError σ}

/-- One turn of the loop. -/
theorem foldFields_of_some {r r' : TlvReader} {f : Field} (h : r.nextField = .ok (some (f, r')))
    (s : σ) : foldFields step r s = step s f >>= foldFields step r' := by
  rw [foldFields]
  split
  · next h' => exact absurd (h.symm.trans h') (by simp)
  · next h' => exact absurd (h.symm.trans h') (by simp)
  · next h' =>
    obtain ⟨rfl, rfl⟩ := Prod.mk.inj (Option.some_inj.mp (Except.ok.inj (h.symm.trans h')))
    rcases step s f with e | s' <;> rfl

theorem foldFields_of_none {r : TlvReader} (h : r.nextField = .ok none) (s : σ) :
    foldFields step r s = .ok s := by
  rw [foldFields]
  split
  · next h' => exact absurd (h.symm.trans h') (by simp)
  · rfl
  · next h' => exact absurd (h.symm.trans h') (by simp)

theorem foldFields_of_error {r : TlvReader} {e : FormatError} (h : r.nextField = .error e) (s : σ) :
    foldFields step r s = .error e := by
  rw [foldFields]
  split
  · next h' => exact congrArg _ (Except.error.inj (h.symm.trans h')).symm
  · next h' => exact absurd (h.symm.trans h') (by simp)
  · next h' => exact absurd (h.symm.trans h') (by simp)

/-- The loop over records from a position on is a fold over their fields. -/
theorem foldFields_at (pre : List UInt8) {lastTag : Option UInt16} {records : List Record}
    (h : Increasing lastTag records) (s : σ) :
    foldFields step ⟨pre ++ bytesOf records, pre.length, lastTag⟩ s =
      (fieldsAt pre.length records).foldlM step s := by
  induction records generalizing pre lastTag s with
  | nil => exact foldFields_of_none (nextField_of_le (by simp)) s
  | cons rec records ih =>
    obtain ⟨horder, hrest⟩ := increasing_cons.mp h
    rw [bytesOf_cons, foldFields_of_some (nextField_bytes pre _ horder), fieldsAt,
      List.foldlM_cons]
    have hlen : (pre ++ rec.bytes).length = pre.length + rec.bytes.length := List.length_append
    congr 1
    funext s'
    rw [← List.append_assoc, ← hlen, ih (pre ++ rec.bytes) hrest s']

/-- **Reading an encoding.** The loop over the bytes of a document is a fold over its fields. -/
theorem foldFields_bytesOf {records : List Record} (h : Increasing none records) (s : σ) :
    foldFields step (new (bytesOf records)) s = (fieldsAt 0 records).foldlM step s :=
  foldFields_at [] h s

/-- What the loop has read from a position on, if it was not refused. -/
theorem exists_of_foldFields_at {r : TlvReader} {s s' : σ} (hpos : r.pos ≤ r.buf.length)
    (h : foldFields step r s = .ok s') :
    ∃ records, Increasing r.lastTag records ∧ r.buf.drop r.pos = bytesOf records ∧
      (fieldsAt r.pos records).foldlM step s = .ok s' := by
  induction hn : r.buf.length - r.pos using Nat.strongRecOn generalizing r s with
  | ind n ih =>
    rcases hnext : r.nextField with e | - | ⟨f, r'⟩
    -- the next field is refused, is missing, or is read
    · rw [foldFields_of_error hnext] at h
      exact absurd h (by simp)
    · rw [foldFields_of_none hnext] at h
      refine ⟨[], ?_, List.drop_of_length_le (le_of_nextField_eq_ok_none hnext), h⟩
      rcases r.lastTag with - | prev <;> simp [Increasing]
    · rw [foldFields_of_some hnext] at h
      obtain ⟨s₁, hstep, hloop⟩ := Except.bind_eq_ok_iff.mp h
      have hlt := pos_lt_of_nextField hnext
      obtain ⟨rec, pre, rest, hbuf, hpre, horder, rfl, rfl⟩ := nextField_eq_ok_some hnext
      have hpos' : r.pos + rec.bytes.length ≤ r.buf.length := by
        rw [hbuf, hpre, List.length_append, List.length_append]
        omega
      obtain ⟨records, hinc, hdrop, hfold⟩ := ih _ (hn ▸ hlt) hpos' hloop rfl
      refine ⟨rec :: records, increasing_cons.mpr ⟨horder, hinc⟩, ?_, ?_⟩
      · rw [bytesOf_cons, ← hdrop, hbuf, hpre, List.drop_left, ← List.append_assoc,
          ← List.length_append, List.drop_left]
      · rw [fieldsAt, List.foldlM_cons, hstep]
        exact hfold

/-- **What was read.** A loop that was not refused has read the bytes of a document. -/
theorem exists_of_foldFields {buf : List UInt8} {s s' : σ}
    (h : foldFields step (new buf) s = .ok s') :
    ∃ records, Increasing none records ∧ buf = bytesOf records ∧
      (fieldsAt 0 records).foldlM step s = .ok s' :=
  exists_of_foldFields_at (Nat.zero_le _) h

/-- Read all fields of a buffer. -/
def readAll (buf : List UInt8) : Except FormatError (List Field) :=
  foldFields (fun fields f ↦ .ok (fields ++ [f])) (new buf) []

theorem foldlM_push (fields acc : List Field) :
    fields.foldlM (fun fields f ↦ (.ok (fields ++ [f]) : Except FormatError (List Field))) acc =
      .ok (acc ++ fields) := by
  induction fields generalizing acc with
  | nil => rw [Except.foldlM_nil, List.append_nil]
  | cons f fields ih =>
    rw [List.foldlM_cons, Except.ok_bind, ih, List.append_assoc]
    rfl

/-- A buffer reads as a list of fields exactly if it is a document with these fields. -/
theorem readAll_eq_ok_iff {buf : List UInt8} {fields : List Field} :
    readAll buf = .ok fields ↔
      ∃ records, Increasing none records ∧ buf = bytesOf records ∧ fields = fieldsAt 0 records := by
  constructor
  · intro h
    obtain ⟨records, hinc, hbuf, hfold⟩ := exists_of_foldFields h
    rw [foldlM_push] at hfold
    exact ⟨records, hinc, hbuf, (Except.ok.inj hfold).symm⟩
  · rintro ⟨records, hinc, rfl, rfl⟩
    rw [readAll, foldFields_bytesOf hinc, foldlM_push]
    rfl

end TlvReader

/-! ### Spans -/

/-- The records that fields were read from tile the positions from `start` to `stop`. -/
def Tiles : ℕ → ℕ → List Field → Prop
  | start, stop, [] => start = stop
  | start, stop, f :: fields =>
    f.span.start - fieldPrefixLen = start ∧ fieldPrefixLen ≤ f.span.start ∧
      f.span.start ≤ f.span.stop ∧ Tiles f.span.stop stop fields

/-- Fields tile the bytes that they are read from, without gaps. -/
theorem tiles_fieldsAt (offset : ℕ) (records : List Record) :
    Tiles offset (offset + (bytesOf records).length) (fieldsAt offset records) := by
  induction records generalizing offset with
  | nil => rfl
  | cons rec records ih =>
    have hstop : (rec.fieldAt offset).span.stop = offset + rec.bytes.length := by
      rw [Record.length_bytes, ← Nat.add_assoc]
      rfl
    refine ⟨Nat.add_sub_cancel _ _, Nat.le_add_left _ _, Nat.le_add_right _ _, ?_⟩
    rw [hstop, bytesOf_cons, List.length_append, ← Nat.add_assoc]
    exact ih _

/-- A span addresses exactly the value of its field. -/
theorem slice?_span_of_mem (pre : List UInt8) {records : List Record} {f : Field}
    (hf : f ∈ fieldsAt pre.length records) :
    slice? (pre ++ bytesOf records) f.span.start f.span.stop = some f.value := by
  induction records generalizing pre with
  | nil => exact absurd hf (by simp [fieldsAt])
  | cons rec records ih =>
    rcases List.mem_cons.mp hf with rfl | hf
    · have := slice?_append (pre ++ (toLeBytes rec.tag ++ toLeBytes (UInt32.ofNat rec.value.length)))
        rec.value (bytesOf records)
      rwa [List.length_append, List.length_append, length_toLeBytes, length_toLeBytes,
        List.append_assoc, ← List.append_assoc _ rec.value] at this
    · rw [bytesOf_cons, ← List.append_assoc]
      rw [← List.length_append] at hf
      exact ih _ hf

/-- Fields determine the records they were read from. -/
theorem fieldsAt_injective {offset : ℕ} {records records' : List Record}
    (h : fieldsAt offset records = fieldsAt offset records') : records = records' := by
  induction records generalizing offset records' with
  | nil =>
    rcases records' with - | ⟨rec', records'⟩
    · rfl
    · exact absurd h (by simp [fieldsAt])
  | cons rec records ih =>
    rcases records' with - | ⟨rec', records'⟩
    · exact absurd h (by simp [fieldsAt])
    · obtain ⟨hfield, hrest⟩ := List.cons.inj h
      obtain rfl : rec = rec' :=
        Record.ext (congrArg Field.tag hfield) (congrArg Field.value hfield)
      rw [ih hrest]

/-! ### Writing -/

namespace TlvWriter

/-- What has been written: the bytes of some records with increasing tags. -/
structure Wrote (w : TlvWriter) (records : List Record) : Prop where
  buf_eq : w.buf = bytesOf records
  lastTag_eq : w.lastTag = records.getLast?.map Record.tag
  increasing : Increasing none records

theorem wrote_new : Wrote new [] := ⟨rfl, rfl, List.isChain_nil⟩

/-- The writer insists on increasing tags, and on values that fit. -/
theorem put_eq_ok_iff {w w' : TlvWriter} {tag : UInt16} {value : List UInt8} :
    w.put tag value = .ok w' ↔
      (∀ prev, w.lastTag = some prev → prev < tag) ∧ ∃ fits : value.length < 2 ^ 32,
        w' = ⟨w.buf ++ Record.bytes ⟨tag, value, fits⟩, some tag⟩ := by
  rw [put, Except.check_bind_eq_ok_iff, Except.check_bind_eq_ok_iff, checkOrder_eq_ok_iff,
    Except.refuseIf_eq_ok_iff, Nat.not_le]
  refine and_congr_right fun _ ↦ ⟨fun ⟨fits, h⟩ ↦ ⟨fits, (Except.ok.inj h).symm⟩, ?_⟩
  rintro ⟨fits, rfl⟩
  exact ⟨fits, rfl⟩

/-- A successful `put` writes one more record. -/
theorem Wrote.put {w w' : TlvWriter} {records : List Record} (hw : w.Wrote records) {tag : UInt16}
    {value : List UInt8} (h : w.put tag value = .ok w') :
    ∃ fits : value.length < 2 ^ 32, w'.Wrote (records ++ [⟨tag, value, fits⟩]) := by
  obtain ⟨horder, fits, rfl⟩ := put_eq_ok_iff.mp h
  refine ⟨fits, ?_, ?_, ?_⟩
  · rw [bytesOf_append, hw.buf_eq]
    simp
  · simp
  · have hinc := hw.increasing
    rw [hw.lastTag_eq] at horder
    simp only [Increasing, Option.toList_none, List.nil_append, List.map_append, List.map_cons,
      List.map_nil] at hinc ⊢
    refine List.isChain_append.mpr ⟨hinc, List.isChain_singleton _, ?_⟩
    intro x hx y hy
    rw [List.getLast?_map] at hx
    simp only [List.head?_cons, Option.mem_def, Option.some.injEq] at hy
    exact hy ▸ horder x hx

/-- A sequence of `put` calls, some of which fail: the writer after it, and the calls that
succeeded. -/
def putAll : TlvWriter → List (UInt16 × List UInt8) → TlvWriter × List (UInt16 × List UInt8)
  | w, [] => (w, [])
  | w, (tag, value) :: calls =>
    match w.put tag value with
    | .ok w' => ((putAll w' calls).1, (tag, value) :: (putAll w' calls).2)
    | .error _ => putAll w calls

/-- What a sequence of calls has written: the calls that succeeded. -/
theorem Wrote.putAll {w : TlvWriter} {records : List Record} (hw : w.Wrote records)
    (calls : List (UInt16 × List UInt8)) :
    ∃ written : List Record,
      written.map (fun r ↦ (r.tag, r.value)) = (w.putAll calls).2 ∧
        (w.putAll calls).1.Wrote (records ++ written) := by
  induction calls generalizing w records with
  | nil => exact ⟨[], rfl, by rwa [List.append_nil]⟩
  | cons call calls ih =>
    obtain ⟨tag, value⟩ := call
    -- a call that is refused leaves the writer as it was
    rcases hput : w.put tag value with e | w'
    · have heq : w.putAll ((tag, value) :: calls) = w.putAll calls := by rw [TlvWriter.putAll, hput]
      rw [heq]
      exact ih hw
    · have heq : w.putAll ((tag, value) :: calls) =
          ((w'.putAll calls).1, (tag, value) :: (w'.putAll calls).2) := by
        rw [TlvWriter.putAll, hput]
      obtain ⟨fits, hw'⟩ := hw.put hput
      obtain ⟨written, hcalls, hwrote⟩ := ih hw'
      rw [heq]
      refine ⟨⟨tag, value, fits⟩ :: written, by rw [List.map_cons, hcalls], ?_⟩
      rwa [List.append_assoc] at hwrote

end TlvWriter

/-! ### Documents and buffers -/

/-- A list of records with strictly increasing tags. -/
structure Document where
  records : List Record
  increasing : (records.map Record.tag).Pairwise (· < ·)

namespace Document

/-- The only encoding of a document. -/
def bytes (d : Document) : List UInt8 := bytesOf d.records

/-- The tags and values of a document. -/
def contents (d : Document) : List (UInt16 × List UInt8) :=
  d.records.map fun r ↦ (r.tag, r.value)

/-- The fields that a document is read as. -/
def fields (d : Document) : List Field := fieldsAt 0 d.records

theorem readAll_bytes (d : Document) : TlvReader.readAll d.bytes = .ok d.fields :=
  TlvReader.readAll_eq_ok_iff.mpr ⟨d.records, increasing_none.mpr d.increasing, rfl, rfl⟩

theorem fields_contents (offset : ℕ) (records : List Record) :
    (fieldsAt offset records).map (fun f ↦ (f.tag, f.value)) =
      records.map fun r ↦ (r.tag, r.value) := by
  induction records generalizing offset with
  | nil => rfl
  | cons rec records ih =>
    rw [fieldsAt, List.map_cons, List.map_cons, ih]
    rfl

/-- **TLV is a bijection** between documents and accepted buffers. A buffer is read to its end
exactly if it is the encoding of a document; the fields are those of the document, every span
addresses its value, and the records tile the buffer; the encoding is injective. Whatever sequence
of `put` calls a writer has seen, its bytes are the document of the calls that succeeded. -/
theorem tlv_bijection :
    (∀ buf, (∃ fields, TlvReader.readAll buf = .ok fields) ↔ ∃ d : Document, buf = d.bytes) ∧
      (∀ d : Document, ∃ fields, TlvReader.readAll d.bytes = .ok fields ∧
        fields.map (fun f ↦ (f.tag, f.value)) = d.contents ∧
        (∀ f ∈ fields, slice? d.bytes f.span.start f.span.stop = some f.value) ∧
        Tiles 0 d.bytes.length fields) ∧
      (∀ d d' : Document, d.bytes = d'.bytes → d = d') ∧
      ∀ calls, ∃ d : Document, d.contents = (TlvWriter.new.putAll calls).2 ∧
        (TlvWriter.new.putAll calls).1.finish = d.bytes ∧
        TlvReader.readAll (TlvWriter.new.putAll calls).1.finish = .ok d.fields := by
  refine ⟨fun buf ↦ ⟨?_, ?_⟩, fun d ↦ ?_, ?_, fun calls ↦ ?_⟩
  · rintro ⟨fields, h⟩
    obtain ⟨records, hinc, hbuf, -⟩ := TlvReader.readAll_eq_ok_iff.mp h
    exact ⟨⟨records, increasing_none.mp hinc⟩, hbuf⟩
  · rintro ⟨d, rfl⟩
    exact ⟨_, d.readAll_bytes⟩
  · have htiles := tiles_fieldsAt 0 d.records
    rw [Nat.zero_add] at htiles
    exact ⟨_, d.readAll_bytes, fields_contents 0 d.records,
      fun f hf ↦ slice?_span_of_mem [] hf, htiles⟩
  · intro d d' h
    have hfields := d.readAll_bytes
    rw [h, d'.readAll_bytes] at hfields
    rcases d with ⟨records, _⟩
    rcases d' with ⟨records', _⟩
    obtain rfl : records' = records := fieldsAt_injective (Except.ok.inj hfields)
    rfl
  -- the calls that were not refused are a document
  · obtain ⟨written, hcalls, hwrote⟩ := TlvWriter.wrote_new.putAll calls
    rw [List.nil_append] at hwrote
    refine ⟨⟨written, increasing_none.mp hwrote.increasing⟩, hcalls, hwrote.buf_eq, ?_⟩
    rw [TlvWriter.finish, hwrote.buf_eq]
    exact readAll_bytes ⟨written, increasing_none.mp hwrote.increasing⟩

end Document

end OpenCrate.Format
