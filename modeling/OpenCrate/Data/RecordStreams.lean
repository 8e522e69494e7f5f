import OpenCrate.Data.PrefixFree

/-!
# Streams of records

A stream of framed items of which each is a record. What a parser of such a stream has to do is one law
(`ReadsRecords`): it accepts the streams whose records it reads and has room for, and nothing else; the
records of a stream are determined by its bytes, and where a length or a record is cut off there is no
stream. The law follows from its first part (`ReadsRecords.of_eq_ok_iff`).

There are two loops. One counts before a record is taken, which is `unframe`; the other takes a record,
parses it, and counts then (`unframeRecords`).
-/

namespace OpenCrate

open Except (okOr)

/-! ### Records and the bytes of their stream -/

/-- The records of a stream: its bytes are the records, each behind its length in four bytes. -/
structure IsStream (records : List (List UInt8)) (bytes : List UInt8) : Prop where
  fits : ∀ record ∈ records, record.length < 2 ^ 32
  eq_frames : bytes = frames records

theorem isStream_nil_iff {bytes : List UInt8} : IsStream [] bytes ↔ bytes = [] :=
  ⟨fun h ↦ h.eq_frames, fun h ↦ ⟨nofun, h⟩⟩

theorem isStream_cons_iff {record bytes : List UInt8} {records : List (List UInt8)} :
    IsStream (record :: records) bytes ↔
      record.length < 2 ^ 32 ∧ ∃ rest, bytes = frame record ++ rest ∧ IsStream records rest := by
  constructor
  · rintro ⟨hfits, rfl⟩
    obtain ⟨hrecord, hrecords⟩ := List.forall_mem_cons.mp hfits
    exact ⟨hrecord, frames records, frames_cons _ _, hrecords, rfl⟩
  · rintro ⟨hrecord, _, rfl, hrecords, rfl⟩
    exact ⟨List.forall_mem_cons.mpr ⟨hrecord, hrecords⟩, (frames_cons _ _).symm⟩

/-- What stands behind the first records of a stream is the stream of the others. -/
theorem IsStream.exists_of_append {records all : List (List UInt8)} {rest : List UInt8}
    (hfits : ∀ record ∈ records, record.length < 2 ^ 32) (h : IsStream all (frames records ++ rest)) :
    ∃ more, all = records ++ more ∧ IsStream more rest := by
  -- frames are prefix free, so the streams agree record by record
  induction records generalizing all with
  | nil => exact ⟨all, rfl, h⟩
  | cons record records ih =>
    obtain ⟨hrecord, hrecords⟩ := List.forall_mem_cons.mp hfits
    rw [frames_cons, List.append_assoc] at h
    cases all with
    | nil =>
      have hlength := congrArg List.length (isStream_nil_iff.mp h)
      rw [List.length_append, length_frame, List.length_nil] at hlength
      omega
    | cons first all =>
      obtain ⟨hfirst, tail, hbytes, htail⟩ := isStream_cons_iff.mp h
      obtain ⟨rfl, rfl⟩ := frame_append_inj hrecord hfirst hbytes
      obtain ⟨more, rfl, hmore⟩ := ih hrecords htail
      exact ⟨more, rfl, hmore⟩

/-- **The records of a stream are unique.** -/
theorem IsStream.unique {records records' : List (List UInt8)} {bytes : List UInt8}
    (h : IsStream records bytes) (h' : IsStream records' bytes) : records' = records := by
  have happend : IsStream records' (frames records ++ []) := by
    rw [List.append_nil, ← h.eq_frames]
    exact h'
  obtain ⟨more, rfl, hmore⟩ := happend.exists_of_append h.fits
  rw [frames_eq_nil_iff.mp hmore.eq_frames.symm, List.append_nil]

/-- Bytes that are left over: a length is cut off, or there is less behind a length than it says. -/
inductive Torn : List UInt8 → Prop where
  | length {bytes : List UInt8} (hsome : bytes ≠ []) (hshort : bytes.length < 4) : Torn bytes
  | record (len : UInt32) {part : List UInt8} (hshort : part.length < len.toNat) :
    Torn (toLeBytes len ++ part)

/-- No records make up bytes that are left over. -/
theorem Torn.not_isStream {bytes : List UInt8} (h : Torn bytes) (records : List (List UInt8)) :
    ¬IsStream records bytes := by
  intro hstream
  -- bytes that break off are neither empty nor start with a whole record
  cases records with
  | nil =>
    obtain rfl := isStream_nil_iff.mp hstream
    generalize hbytes : ([] : List UInt8) = bytes at h
    cases h with
    | length hsome hshort => exact hsome hbytes.symm
    | record len hshort =>
      have hlength := congrArg List.length hbytes
      rw [List.length_append, length_toLeBytes, LeInt.width_uint32, List.length_nil] at hlength
      omega
  | cons record records =>
    obtain ⟨hrecord, rest, hbytes, -⟩ := isStream_cons_iff.mp hstream
    cases h with
    | length hsome hshort =>
      rw [hbytes, List.length_append, length_frame] at hshort
      omega
    | record len hshort =>
      rw [frame, List.append_assoc] at hbytes
      obtain ⟨rfl, rfl⟩ := prefixFree_toLeBytes _ _ _ _ hbytes
      rw [UInt32.toNat_ofNat_of_lt' hrecord, List.length_append] at hshort
      omega

/-! ### The law of a parser -/

section

variable {ε α : Type}

/-- **The law of a parser of streams**: how many records it has room for, and what it reads each as. -/
structure ReadsRecords (parse : List UInt8 → Except ε (List α)) (room : ℕ → Prop)
    (reads : List UInt8 → α → Prop) : Prop where
  /-- What is accepted, and what is returned. -/
  eq_ok_iff : ∀ bytes out, parse bytes = .ok out ↔
    ∃ records, IsStream records bytes ∧ room records.length ∧ List.Forall₂ reads records out
  /-- There is one list of records. -/
  unique : ∀ records records' bytes, IsStream records bytes → IsStream records' bytes → records' = records
  /-- Bytes left over are refused, whatever the records before them. -/
  refuses : ∀ records stream rest, IsStream records stream → Torn rest →
    ∃ refusal, parse (stream ++ rest) = .error refusal

/-- The law follows from what is accepted. -/
theorem ReadsRecords.of_eq_ok_iff {parse : List UInt8 → Except ε (List α)} {room : ℕ → Prop}
    {reads : List UInt8 → α → Prop}
    (h : ∀ bytes out, parse bytes = .ok out ↔
      ∃ records, IsStream records bytes ∧ room records.length ∧ List.Forall₂ reads records out) :
    ReadsRecords parse room reads where
  eq_ok_iff := h
  unique _ _ _ := IsStream.unique
  refuses records stream rest hstream htorn := by
    cases hparse : parse (stream ++ rest) with
    | error refusal => exact ⟨refusal, rfl⟩
    | ok out =>
      obtain ⟨all, hall, -, -⟩ := (h _ _).mp hparse
      rw [hstream.eq_frames] at hall
      obtain ⟨more, -, hmore⟩ := hall.exists_of_append hstream.fits
      exact absurd hmore (htorn.not_isStream more)

/-- The law of a parser that returns the records as they are. -/
theorem ReadsRecords.of_items {parse : List UInt8 → Except ε (List (List UInt8))} {room : ℕ → Prop}
    (h : ∀ bytes records, parse bytes = .ok records ↔ IsStream records bytes ∧ room records.length) :
    ReadsRecords parse room (· = ·) := by
  refine .of_eq_ok_iff fun bytes out ↦ ?_
  simp only [List.forall₂_eq_eq_eq, h]
  exact ⟨fun hparsed ↦ ⟨out, hparsed.1, hparsed.2, rfl⟩, fun ⟨_, hstream, hroom, heq⟩ ↦ heq ▸ ⟨hstream, hroom⟩⟩

/-- The law of a parser that returns the records as they are, if all of them are good. -/
theorem ReadsRecords.of_good {parse : List UInt8 → Except ε (List (List UInt8))} {room : ℕ → Prop}
    {good : List UInt8 → Prop}
    (h : ∀ bytes records, parse bytes = .ok records ↔
      IsStream records bytes ∧ room records.length ∧ ∀ record ∈ records, good record) :
    ReadsRecords parse room fun record out ↦ good record ∧ record = out := by
  refine .of_eq_ok_iff fun bytes out ↦ ?_
  have hforall (records : List (List UInt8)) :
      List.Forall₂ (fun record out ↦ good record ∧ record = out) records out ↔
        (∀ record ∈ records, good record) ∧ records = out := by
    rw [List.forall₂_and_left, List.forall₂_eq_eq_eq]
  simp only [hforall, h]
  constructor
  · intro hparsed
    obtain ⟨hstream, hroom, hgood⟩ := hparsed
    exact ⟨out, hstream, hroom, hgood, rfl⟩
  · intro hparsed
    obtain ⟨_, hstream, hroom, hgood, rfl⟩ := hparsed
    exact ⟨hstream, hroom, hgood⟩

/-- The loop that counts before it takes a record. -/
theorem unframe_nil_eq_ok_iff {full short : ℕ → ε} {cut : ℕ → ℕ → ε} {room : ℕ} {bytes : List UInt8}
    {records : List (List UInt8)} :
    unframe full short cut room bytes [] = .ok records ↔
      IsStream records bytes ∧ records.length ≤ room := by
  rw [unframe_eq_ok_iff]
  constructor
  · rintro ⟨_, rfl, hroom, hfits, hbytes⟩
    exact ⟨⟨hfits, hbytes⟩, hroom⟩
  · rintro ⟨hstream, hroom⟩
    exact ⟨records, rfl, hroom, hstream.fits, hstream.eq_frames⟩

/-! ### Records that are parsed, then counted -/

variable (tornLength tornRecord tooMany : ε) (read : List UInt8 → Except ε α) (limit : ℕ)

/-- Read a stream record by record: its length, its bytes, what they say, and whether it was one too
many. -/
def unframeRecords (rest : List UInt8) (out : List α) : Except ε (List α) :=
  if _h : rest = [] then .ok out
  else do
    let len : UInt32 ← okOr ((slice? rest 0 4).bind ofLeBytes?) tornLength
    let record ← okOr (slice? rest 4 (4 + len.toNat)) tornRecord
    let a ← read record
    if limit < out.length + 1 then .error tooMany
    else unframeRecords (rest.drop (4 + len.toNat)) (out ++ [a])
termination_by rest.length
decreasing_by
  have := List.length_pos_iff.mpr ‹_›
  rw [List.length_drop]
  omega

variable {tornLength tornRecord tooMany read limit}

/-- **One round** takes four bytes and as many as they say. -/
theorem unframeRecords_eq_ok_iff_of_ne_nil {rest : List UInt8} (hne : rest ≠ []) {out all : List α} :
    unframeRecords tornLength tornRecord tooMany read limit rest out = .ok all ↔
      ∃ record tail a, record.length < 2 ^ 32 ∧ rest = frame record ++ tail ∧ read record = .ok a ∧
        out.length < limit ∧
        unframeRecords tornLength tornRecord tooMany read limit tail (out ++ [a]) = .ok all := by
  rw [unframeRecords, dif_neg hne]
  simp only [Except.bind_eq_ok_iff, Except.okOr_eq_ok_iff]
  constructor
  · intro h
    obtain ⟨len, hlen, record, hrecord, a, hread, hrest⟩ := h
    obtain ⟨hfits, hbytes⟩ := exists_frame_iff.mp ⟨len, hlen, hrecord, rfl⟩
    by_cases hroom : limit < out.length + 1
    · rw [if_pos hroom] at hrest
      exact absurd hrest Except.error_ne_ok
    · rw [if_neg hroom] at hrest
      exact ⟨record, _, a, hfits, hbytes, hread, not_lt.mp hroom, hrest⟩
  · intro h
    obtain ⟨record, tail, a, hfits, hbytes, hread, hroom, hrest⟩ := h
    obtain ⟨len, hlen, hrecord, rfl⟩ := exists_frame_iff.mpr ⟨hfits, hbytes⟩
    refine ⟨len, hlen, record, hrecord, a, hread, ?_⟩
    rw [if_neg (not_lt.mpr hroom)]
    exact hrest

/-- **The whole run** behind some records that were read. -/
theorem unframeRecords_eq_ok_iff {rest : List UInt8} {out all : List α} :
    unframeRecords tornLength tornRecord tooMany read limit rest out = .ok all ↔
      ∃ records more, all = out ++ more ∧ IsStream records rest ∧
        (records ≠ [] → out.length + records.length ≤ limit) ∧
        List.Forall₂ (fun record a ↦ read record = .ok a) records more := by
  induction hlength : rest.length using Nat.strong_induction_on generalizing rest out with
  | _ n ih =>
    subst hlength
    by_cases hnil : rest = []
    · subst hnil
      rw [unframeRecords, dif_pos rfl, Except.ok.injEq]
      constructor
      · rintro rfl
        exact ⟨[], [], (List.append_nil _).symm, isStream_nil_iff.mpr rfl, fun h ↦ absurd rfl h, .nil⟩
      · rintro ⟨records, more, rfl, hstream, -, hforall⟩
        obtain rfl := frames_eq_nil_iff.mp hstream.eq_frames.symm
        rw [List.forall₂_nil_left_iff.mp hforall, List.append_nil]
    rw [unframeRecords_eq_ok_iff_of_ne_nil hnil]
    have hless {record tail : List UInt8} (h : rest = frame record ++ tail) : tail.length < rest.length := by
      rw [h, List.length_append, length_frame]
      omega
    constructor
    · rintro ⟨record, tail, a, hfits, hbytes, hread, hroom, hrest⟩
      obtain ⟨records, more, rfl, hstream, hcount, hforall⟩ := (ih _ (hless hbytes) rfl).mp hrest
      refine ⟨record :: records, a :: more, by rw [List.append_assoc, List.singleton_append],
        isStream_cons_iff.mpr ⟨hfits, tail, hbytes, hstream⟩, fun _ ↦ ?_, .cons hread hforall⟩
      rw [List.length_append, List.length_singleton] at hcount
      rw [List.length_cons]
      -- the bound is checked before each record, so the last check is the one that counts
      by_cases hrecords : records = []
      · rw [hrecords, List.length_nil]
        exact hroom
      · have := hcount hrecords
        omega
    · rintro ⟨records, more, rfl, hstream, hcount, hforall⟩
      cases hforall with
      | nil => exact absurd (isStream_nil_iff.mp hstream) hnil
      | @cons record a records more hread hforall =>
        obtain ⟨hfits, tail, hbytes, htail⟩ := isStream_cons_iff.mp hstream
        have hcount := hcount (List.cons_ne_nil _ _)
        rw [List.length_cons] at hcount
        refine ⟨record, tail, a, hfits, hbytes, hread, by omega, (ih _ (hless hbytes) rfl).mpr
          ⟨records, more, by rw [List.append_assoc, List.singleton_append], htail, fun _ ↦ ?_, hforall⟩⟩
        rw [List.length_append, List.length_singleton]
        omega

variable (tornLength tornRecord tooMany read limit) in
/-- The law of the loop. -/
theorem readsRecords_unframeRecords :
    ReadsRecords (fun bytes ↦ unframeRecords tornLength tornRecord tooMany read limit bytes [])
      (· ≤ limit) fun record a ↦ read record = .ok a := by
  refine .of_eq_ok_iff fun bytes out ↦ ?_
  rw [unframeRecords_eq_ok_iff]
  simp only [List.nil_append, exists_eq_left', List.length_nil, Nat.zero_add]
  refine exists_congr fun records ↦ and_congr_right fun _ ↦ and_congr_left fun _ ↦ ?_
  refine ⟨fun h ↦ ?_, fun h _ ↦ h⟩
  by_cases hrecords : records = []
  · rw [hrecords]
    exact Nat.zero_le _
  · exact h hrecords

end

end OpenCrate
