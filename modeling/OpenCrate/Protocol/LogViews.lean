import OpenCrate.Protocol.Directory

/-!
# Views of the logs

What a server shows of its journal and of its key directory: a head with the path that extends an older one
(`View` of `witness`), the question after the record of a member, and a page of records for a monitor
(`directory`). Each of these layouts is read if and only if it is what is written.
-/

namespace OpenCrate.Protocol

open OpenCrate.Format OpenCrate.Crypto
open Except (refuseIf okOr)
open Control (splitAtChecked splitAtChecked_eq_some_iff)

/-! ### Views of a journal -/

/-- Maximum path length. -/
def maxPath : ℕ := 128

/-- Journal view: the server head and proof that it extends a head of size `since`. -/
structure View where
  head : SignedHead
  since : UInt64
  path : List Digest
  deriving DecidableEq

namespace View

/-- The rules of a view, checked on writing and on reading. -/
def check (view : View) : Except FormatError Unit :=
  refuseIf (maxPath < view.path.length ∨ view.since = 0 ∧ view.path ≠ [] ∨ view.head.size < view.since)
    (.badFieldLength 0 (view.path.length * 32))

/-- View bytes. -/
def encode (view : View) : Except FormatError (List UInt8) := do
  view.check
  .ok (view.head.encode ++ toLeBytes view.since ++ view.path.flatMap List.Vector.toList)

/-- Parse a view strictly. -/
def decode (bytes : List UInt8) : Except FormatError View := do
  let bad : FormatError := .badFieldLength 0 bytes.length
  let (head, rest) ← okOr (splitAtChecked signedHeadLen bytes) bad
  let (since, path) ← okOr (splitAtChecked 8 rest) bad
  let nodes ← okOr (chunksExact? 32 path) bad
  let head ← SignedHead.decode head
  let since ← okOr (ofLeBytes? since) bad
  let view : View := ⟨head, since, nodes⟩
  view.check
  .ok view

/-- **A view has one spelling.** -/
theorem decode_eq_ok_iff {bytes : List UInt8} {view : View} :
    decode bytes = .ok view ↔ view.encode = .ok bytes := by
  simp only [decode, encode, Except.bind_eq_ok_iff, Except.okOr_eq_ok_iff, splitAtChecked_eq_some_iff,
    Prod.exists, chunksExact?_eq_some_iff (show 0 < 32 by decide), SignedHead.decode_eq_ok_iff,
    ofLeBytes?_eq_some_iff, Except.ok.injEq]
  constructor
  · rintro ⟨_, _, ⟨hhead, rfl⟩, _, _, ⟨hsince, rfl⟩, nodes, rfl, head, rfl, since, rfl, ⟨⟩, hcheck, rfl⟩
    exact ⟨(), hcheck, List.append_assoc ..⟩
  · rintro ⟨⟨⟩, hcheck, rfl⟩
    exact ⟨_, _, ⟨view.head.length_encode, List.append_assoc ..⟩, _, _, ⟨length_toLeBytes _, rfl⟩, _, rfl, _,
      rfl, _, rfl, (), hcheck, rfl⟩

end View

namespace Directory

/-! ### Questions after a record -/

/-- Record request. -/
def encodeLookupRequest (tenant name : String) (size : UInt64) : Except FormatError (List UInt8) := do
  checkTenant tenant
  checkText name maxNameChars Tag.name
  let tenantLen ← okOr (UInt8.tryFrom (utf8 tenant).length) (bad Tag.tenant (utf8 tenant).length)
  let nameLen ← okOr (UInt16.tryFrom (utf8 name).length) (bad Tag.name (utf8 name).length)
  .ok (tenantLen :: (utf8 tenant ++ toLeBytes nameLen ++ utf8 name ++ toLeBytes size))

/-- Parse a record request strictly. -/
def decodeLookupRequest (bytes : List UInt8) : Except FormatError (String × String × UInt64) := do
  let whole := bad 0 bytes.length
  let (tenantLen, rest) ← okOr (splitAtChecked 1 bytes) whole
  let tenantLen ← okOr tenantLen.head? whole
  let (tenant, rest) ← okOr (splitAtChecked tenantLen.toNat rest) whole
  let (nameLen, rest) ← okOr (splitAtChecked 2 rest) whole
  let nameLen : UInt16 ← okOr (ofLeBytes? nameLen) whole
  let (name, rest) ← okOr (splitAtChecked nameLen.toNat rest) whole
  let size ← okOr (ofLeBytes? rest) whole
  let tenant ← okOr (fromUtf8? tenant) (.notUtf8 Tag.tenant)
  let name ← okOr (fromUtf8? name) (.notUtf8 Tag.name)
  checkTenant tenant
  checkText name maxNameChars Tag.name
  .ok (tenant, name, size)

/-- **A record request has one spelling.** -/
theorem decodeLookupRequest_eq_ok_iff {bytes : List UInt8} {tenant name : String} {size : UInt64} :
    decodeLookupRequest bytes = .ok (tenant, name, size) ↔
      encodeLookupRequest tenant name size = .ok bytes := by
  simp only [decodeLookupRequest, encodeLookupRequest, Except.bind_eq_ok_iff, Except.okOr_eq_ok_iff,
    splitAtChecked_eq_some_iff, Prod.exists, fromUtf8?_eq_some_iff, ofLeBytes?_eq_some_iff,
    UInt8.tryFrom_eq_some_iff, UInt16.tryFrom_eq_some_iff, Except.ok.injEq, Prod.mk.injEq]
  constructor
  · rintro ⟨first, _, ⟨hfirst, rfl⟩, tenantLen, hhead, tenantBytes, _, ⟨htenantLen, rfl⟩, _, _,
      ⟨hnameLenLength, rfl⟩, nameLen, rfl, nameBytes, _, ⟨hnameLen, rfl⟩, size', rfl, _, rfl, _, rfl, ⟨⟩,
      htenant, ⟨⟩, hname, rfl, rfl, rfl⟩
    obtain ⟨byte, rfl⟩ := List.length_eq_one_iff.mp hfirst
    obtain rfl := Option.some.inj hhead
    refine ⟨(), htenant, (), hname, byte, htenantLen.symm, nameLen, hnameLen.symm, ?_⟩
    simp only [List.singleton_append, List.append_assoc]
  · rintro ⟨⟨⟩, htenant, ⟨⟩, hname, tenantLen, htenantLen, nameLen, hnameLen, rfl⟩
    have hlayout : utf8 tenant ++ toLeBytes nameLen ++ utf8 name ++ toLeBytes size =
        utf8 tenant ++ (toLeBytes nameLen ++ (utf8 name ++ toLeBytes size)) := by
      simp only [List.append_assoc]
    rw [hlayout]
    exact ⟨[tenantLen], _, ⟨rfl, rfl⟩, tenantLen, rfl, utf8 tenant, _, ⟨htenantLen.symm, rfl⟩, _, _,
      ⟨length_toLeBytes _, rfl⟩, nameLen, rfl, utf8 name, _, ⟨hnameLen.symm, rfl⟩, size, rfl, tenant, rfl,
      name, rfl, (), htenant, (), hname, rfl, rfl, rfl⟩

/-! ### Pages of records -/

/-- Maximum number of records on a page. -/
def maxPage : ℕ := 256

/-- One record behind those written. -/
def encodePageRecord (out record : List UInt8) : Except FormatError (List UInt8) := do
  refuseIf (record = [] ∨ maxRecordLen < record.length) (bad 0 record.length)
  let len ← okOr (UInt32.tryFrom record.length) (bad 0 record.length)
  .ok (out ++ toLeBytes len ++ record)

/-- A page of records for the monitor. -/
def encodePage (records : List (List UInt8)) : Except FormatError (List UInt8) := do
  refuseIf (maxPage < records.length) (bad 0 records.length)
  records.foldlM encodePageRecord []

section

variable (sha : Sha2)

/-- Records, each behind its length; every record must parse. -/
def decodePageFrom (rest : List UInt8) (out : List (List UInt8)) : Except FormatError (List (List UInt8)) :=
  if _h : rest = [] then .ok out
  else
    match (slice? rest 0 4).bind (ofLeBytes? : List UInt8 → Option UInt32) with
    | none => .error (bad 0 rest.length)
    | some len =>
      match slice? rest 4 (4 + len.toNat) with
      | none => .error (bad 0 (rest.length - 4))
      | some record => do
        let _ ← Record.decode sha record
        refuseIf (maxPage < out.length + 1) (bad 0 (out.length + 1))
        decodePageFrom (rest.drop (4 + len.toNat)) (out ++ [record])
termination_by rest.length
decreasing_by
  have := List.length_pos_iff.mpr ‹_›
  rw [List.length_drop]
  omega

/-- Parse a page. -/
def decodePage (bytes : List UInt8) : Except FormatError (List (List UInt8)) := decodePageFrom sha bytes []

end

/-- A record is written behind the others, if it fits. -/
theorem encodePageRecord_eq_ok_iff {out record bytes : List UInt8} :
    encodePageRecord out record = .ok bytes ↔
      (record ≠ [] ∧ record.length ≤ maxRecordLen) ∧ bytes = out ++ frame record := by
  rw [encodePageRecord, Except.check_bind_eq_ok_iff, Except.refuseIf_eq_ok_iff, not_or, not_lt, frame]
  simp only [Except.bind_eq_ok_iff, Except.okOr_eq_ok_iff, UInt32.tryFrom_eq_some_iff, Except.ok.injEq]
  refine and_congr_right fun hrecord ↦ ?_
  have hlt : record.length < 2 ^ 32 := hrecord.2.trans_lt (by decide)
  constructor
  · rintro ⟨len, hlen, rfl⟩
    rw [← hlen, UInt32.ofNat_toNat, List.append_assoc]
  · rintro rfl
    exact ⟨_, UInt32.toNat_ofNat_of_lt' hlt, List.append_assoc ..⟩

/-- The loop of the writer over the records, from any point on. -/
theorem foldlM_encodePageRecord_eq_ok_iff {records : List (List UInt8)} {out bytes : List UInt8} :
    records.foldlM encodePageRecord out = .ok bytes ↔
      (∀ record ∈ records, record ≠ [] ∧ record.length ≤ maxRecordLen) ∧ bytes = out ++ frames records := by
  induction records generalizing out with
  | nil =>
    rw [Except.foldlM_nil, Except.ok.injEq, frames, List.flatMap_nil, List.append_nil]
    exact ⟨fun h ↦ ⟨nofun, h.symm⟩, fun h ↦ h.2.symm⟩
  | cons record records ih =>
    simp only [List.foldlM_cons, Except.bind_eq_ok_iff, encodePageRecord_eq_ok_iff, ih,
      List.forall_mem_cons, frames_cons]
    constructor
    · rintro ⟨_, ⟨hrecord, rfl⟩, hrecords, rfl⟩
      exact ⟨⟨hrecord, hrecords⟩, List.append_assoc ..⟩
    · rintro ⟨⟨hrecord, hrecords⟩, rfl⟩
      exact ⟨_, ⟨hrecord, rfl⟩, hrecords, (List.append_assoc ..).symm⟩

/-- A page is its records in frames, and there are not too many of them. -/
theorem encodePage_eq_ok_iff {records : List (List UInt8)} {bytes : List UInt8} :
    encodePage records = .ok bytes ↔ records.length ≤ maxPage ∧
      (∀ record ∈ records, record ≠ [] ∧ record.length ≤ maxRecordLen) ∧ bytes = frames records := by
  rw [encodePage, Except.check_bind_eq_ok_iff, Except.refuseIf_eq_ok_iff, not_lt,
    foldlM_encodePageRecord_eq_ok_iff, List.nil_append]

section

variable {sha : Sha2}

/-- Bytes that a record is read from. -/
def IsRecord (sha : Sha2) (bytes : List UInt8) : Prop := ∃ record, Record.decode sha bytes = .ok record

/-- A record of the directory fits into a page. -/
theorem IsRecord.fits {bytes : List UInt8} (h : IsRecord sha bytes) :
    bytes ≠ [] ∧ bytes.length ≤ maxRecordLen := by
  obtain ⟨record, hrecord⟩ := h
  exact ⟨Record.ne_nil_of_decode hrecord, (Record.decode_eq_ok_iff.mp hrecord).1⟩

theorem IsRecord.length_lt {bytes : List UInt8} (h : IsRecord sha bytes) : bytes.length < 2 ^ 32 :=
  h.fits.2.trans_lt (by decide)

/-- **The loop of the reader**: every frame is a record, and the page is full at most. -/
theorem decodePageFrom_eq_ok_iff {rest : List UInt8} {out records : List (List UInt8)} :
    decodePageFrom sha rest out = .ok records ↔ ∃ more, records = out ++ more ∧
      (∀ record ∈ more, IsRecord sha record) ∧ (more ≠ [] → records.length ≤ maxPage) ∧
        rest = frames more := by
  -- the cases of the loop: the end, a missing length, a missing record, and a record
  induction rest, out using decodePageFrom.induct generalizing records with
  | case1 out =>
    rw [decodePageFrom, dif_pos rfl, Except.ok.injEq]
    constructor
    · rintro rfl
      exact ⟨[], (List.append_nil _).symm, nofun, fun h ↦ absurd rfl h, rfl⟩
    · rintro ⟨more, rfl, -, -, hmore⟩
      rw [frames_eq_nil_iff.mp hmore.symm, List.append_nil]
  | case2 rest out hne hlen =>
    rw [decodePageFrom, dif_neg hne]
    simp only [hlen]
    refine ⟨nofun, ?_⟩
    rintro ⟨more, -, hrecords, -, rfl⟩
    cases more with
    | nil => exact absurd rfl hne
    | cons record more =>
      have hrecord := (hrecords record List.mem_cons_self).length_lt
      obtain ⟨len, hlen', -⟩ := exists_frame_iff.mpr ⟨hrecord, frames_cons _ _⟩
      exact absurd (hlen.symm.trans hlen') nofun
  | case3 rest out hne len hlen hitem =>
    rw [decodePageFrom, dif_neg hne]
    simp only [hlen, hitem]
    refine ⟨nofun, ?_⟩
    rintro ⟨more, -, hrecords, -, rfl⟩
    cases more with
    | nil => exact absurd rfl hne
    | cons record more =>
      have hrecord := (hrecords record List.mem_cons_self).length_lt
      obtain ⟨len', hlen', hitem', -⟩ := exists_frame_iff.mpr ⟨hrecord, frames_cons _ _⟩
      obtain rfl := Option.some.inj (hlen.symm.trans hlen')
      exact absurd (hitem.symm.trans hitem') nofun
  | case4 rest out hne len hlen record hitem ih =>
    rw [decodePageFrom, dif_neg hne]
    simp only [hlen, hitem, Except.bind_eq_ok_iff, Except.refuseIf_eq_ok_iff, not_lt, ih]
    obtain ⟨hshort, hrest⟩ := exists_frame_iff.mp ⟨len, hlen, hitem, rfl⟩
    constructor
    · rintro ⟨parsed, hparsed, ⟨⟩, hroom, more, rfl, hrecords, hcount, htail⟩
      refine ⟨record :: more, by rw [List.append_assoc, List.singleton_append], ?_, fun _ ↦ ?_, ?_⟩
      · exact List.forall_mem_cons.mpr ⟨⟨parsed, hparsed⟩, hrecords⟩
      -- the bound on the page is checked behind each record, and the last check is the sharpest
      · by_cases hmore : more = []
        · simpa [hmore] using hroom
        · exact hcount hmore
      · rw [frames_cons, ← htail]
        exact hrest
    · rintro ⟨more, rfl, hrecords, hcount, hmore⟩
      cases more with
      | nil => exact absurd hmore hne
      | cons head more =>
        obtain ⟨hhead, htailRecords⟩ := List.forall_mem_cons.mp hrecords
        rw [frames_cons] at hmore
        obtain ⟨rfl, htail⟩ := frame_append_inj hshort hhead.length_lt (hrest.symm.trans hmore)
        obtain ⟨parsed, hparsed⟩ := hhead
        have hcount := hcount (List.cons_ne_nil _ _)
        have hassoc : out ++ record :: more = out ++ [record] ++ more := by
          rw [List.append_assoc, List.singleton_append]
        refine ⟨parsed, hparsed, (), ?_, more, hassoc, htailRecords, fun _ ↦ hassoc ▸ hcount, htail⟩
        rw [List.length_append, List.length_cons] at hcount
        omega

/-- **A page is read** if and only if it is what is written for records that parse. -/
theorem decodePage_eq_ok_iff {bytes : List UInt8} {records : List (List UInt8)} :
    decodePage sha bytes = .ok records ↔ (∀ record ∈ records, IsRecord sha record) ∧
      encodePage records = .ok bytes := by
  rw [decodePage, decodePageFrom_eq_ok_iff, encodePage_eq_ok_iff]
  constructor
  · rintro ⟨more, hmore, hrecords, hcount, rfl⟩
    obtain rfl : records = more := hmore
    refine ⟨hrecords, ?_, fun record hrecord ↦ (hrecords record hrecord).fits, rfl⟩
    by_cases hnil : records = []
    · rw [hnil]
      exact Nat.zero_le _
    · exact hcount hnil
  · rintro ⟨hrecords, hcount, -, rfl⟩
    exact ⟨records, rfl, hrecords, fun _ ↦ hcount, rfl⟩

end

end Directory

end OpenCrate.Protocol
