import OpenCrate.Crypto.Sign
import OpenCrate.Format.HeaderRoundTrip
import Mathlib.Data.List.Sort

/-!
# The hash of the header core

`Header::core_hash` of `oc-format` hashes the bytes of a header without two of its records, the key
slots and the wrapped content key. The records are cut out whole, tag and length included, at the
ranges that the reader has returned.

The ranges are those of the records with tags 10 and 17 (`Placed`), so what is hashed is the document
without them (`corePreimage_eq`). Such a document has one reading, and the other fields of the header
are a function of it (`core_eq_foldl`).
-/

namespace OpenCrate.Format

open Crypto
open Except (refuseIf okOr)

/-! ### The hash -/

/-- The bytes outside the given ranges, from a position on. -/
def piecesFrom (bytes : List UInt8) : ℕ → List Span → Except FormatError (List UInt8)
  | cursor, [] => okOr (slice? bytes cursor bytes.length) .offsetOverflow
  | cursor, range :: ranges => do
    refuseIf (range.start < cursor ∨ bytes.length < range.stop) .offsetOverflow
    let piece ← okOr (slice? bytes cursor range.start) .offsetOverflow
    let rest ← piecesFrom bytes range.stop ranges
    .ok (piece ++ rest)

/-- The ranges that are cut out, in the order of their starts. -/
def HeaderSpans.cut (spans : HeaderSpans) : List Span :=
  [spans.keySlotsRecord, spans.wrappedCekRecord].insertionSort fun a b ↦ a.start ≤ b.start

namespace Header

/-- What is hashed: the label, and everything except key material. -/
def corePreimage (bytes : List UInt8) (spans : HeaderSpans) : Except FormatError (List UInt8) := do
  let pieces ← piecesFrom bytes 0 spans.cut
  .ok (Label.coreHash.asBytes ++ [0x00] ++ pieces)

/-- Header core hash: everything except key material. -/
def coreHash (sha256 : List UInt8 → Digest) (bytes : List UInt8) (spans : HeaderSpans) :
    Except FormatError Digest :=
  (corePreimage bytes spans).map sha256

end Header

/-! ### The fields it covers -/

/-- The contents without key material. -/
def withoutKeyMaterial (l : Contents) : Contents :=
  l.filter fun p ↦ p.1 ≠ keySlotsTag ∧ p.1 ≠ HeaderTag.wrappedCek

/-- The tags and values of the top-level fields of a buffer, without key material. -/
def coreFields (bytes : List UInt8) : Except FormatError Contents :=
  (TlvReader.readAll bytes).map fun fields ↦
    withoutKeyMaterial (fields.map fun f ↦ (f.tag, f.value))

theorem Encodes.coreFields {bytes : List UInt8} {l : Contents} (h : Encodes bytes l) :
    coreFields bytes = .ok (withoutKeyMaterial l) := by
  rw [Format.coreFields, h.readAll, Except.ok_map, map_fieldsOf]

theorem withoutKeyMaterial_eq_self {l : Contents} (h : ∀ p ∈ l, p.1 ≠ 10 ∧ p.1 ≠ 17) :
    withoutKeyMaterial l = l :=
  List.filter_eq_self.mpr fun p hp ↦ decide_eq_true (h p hp)

/-- Key material is left out of each part on its own. -/
theorem withoutKeyMaterial_append (l l' : Contents) :
    withoutKeyMaterial (l ++ l') = withoutKeyMaterial l ++ withoutKeyMaterial l' :=
  List.filter_append _ _

@[simp] theorem withoutKeyMaterial_keySlots (value : List UInt8) (l : Contents) :
    withoutKeyMaterial ((10, value) :: l) = withoutKeyMaterial l :=
  List.filter_cons_of_neg (by simp [keySlotsTag, HeaderTag.wrappedCek])

@[simp] theorem withoutKeyMaterial_wrappedCek (value : List UInt8) (l : Contents) :
    withoutKeyMaterial ((17, value) :: l) = withoutKeyMaterial l :=
  List.filter_cons_of_neg (by simp [keySlotsTag, HeaderTag.wrappedCek])

/-! ### Where the ranges lie -/

/-- A range is that of a record with the given tag. -/
def RecordAt (l : Contents) (tag : UInt16) (range : Span) : Prop :=
  ∃ pre value post, l = pre ++ [(tag, value)] ++ post ∧
    range = ⟨encodedLength pre, encodedLength (pre ++ [(tag, value)])⟩

/-- The ranges of key material that were read are those of its records. -/
structure HeaderReading.Placed (l : Contents) (acc : HeaderReading) : Prop where
  keySlots : ∀ range, acc.keySlotsRecord = some range → RecordAt l 10 range
  wrappedCek : ∀ range, acc.wrappedCekRecord = some range → RecordAt l 17 range

/-- Only a field of key material assigns its range. -/
theorem placed_of_decodeField {l : Contents} {acc : HeaderReading} {version : Option UInt16}
    {field : Field} {record : Span} {a : Assignment} (hacc : acc.Placed l)
    (hrecord : RecordAt l field.tag record) (h : decodeField version field record = .ok a) :
    (acc.assign a).Placed l := by
  unfold decodeField at h
  split at h
  case h_7 =>
    obtain ⟨size, -, h⟩ := Except.bind_eq_ok_iff.mp h
    obtain ⟨size', -, rfl⟩ := Except.map_eq_ok_iff.mp h
    exact { hacc with }
  case h_9 =>
    obtain ⟨v, -, h⟩ := Except.bind_eq_ok_iff.mp h
    obtain ⟨policy, -, h⟩ := Except.bind_eq_ok_iff.mp h
    obtain rfl := Except.ok.inj h
    exact { hacc with }
  case h_10 heq =>
    obtain ⟨v, -, h⟩ := Except.bind_eq_ok_iff.mp h
    obtain ⟨slots, -, h⟩ := Except.bind_eq_ok_iff.mp h
    obtain rfl := Except.ok.inj h
    refine { hacc with keySlots := ?_ }
    rintro _ ⟨⟩
    exact heq ▸ hrecord
  case h_12 =>
    obtain rfl := Except.ok.inj h
    exact { hacc with }
  case h_14 =>
    obtain rfl := Except.ok.inj h
    exact { hacc with }
  case h_15 =>
    obtain ⟨value, -, h⟩ := Except.bind_eq_ok_iff.mp h
    obtain ⟨-, h⟩ := Except.check_bind_eq_ok_iff.mp h
    obtain rfl := Except.ok.inj h
    exact { hacc with }
  case h_17 heq =>
    obtain ⟨wrapped, -, rfl⟩ := Except.map_eq_ok_iff.mp h
    refine { hacc with wrappedCek := ?_ }
    rintro _ ⟨⟩
    exact heq ▸ hrecord
  case h_18 =>
    split_ifs at h
    · obtain ⟨coauthors, -, rfl⟩ := Except.map_eq_ok_iff.mp h
      exact { hacc with }
    · exact eq_of_skipUnknown h ▸ hacc
  case h_19 => exact eq_of_skipUnknown h ▸ hacc
  -- the other fields have no range
  all_goals
    obtain ⟨_, -, rfl⟩ := Except.map_eq_ok_iff.mp h
    exact { hacc with }

/-- What a run over the fields of a document has placed. -/
theorem HeaderReading.Placed.run {l : Contents} {acc : HeaderReading}
    (h : (fieldsOf 0 l).foldlM decodeStep {} = .ok acc) : acc.Placed l := by
  refine Except.foldlM_invariant (P := HeaderReading.Placed l) h ⟨nofun, nofun⟩ ?_
  intro field hfield c c' hc hstep
  obtain ⟨record, hrecord, hstep⟩ := Except.bind_eq_ok_iff.mp hstep
  obtain ⟨a, ha, rfl⟩ := Except.map_eq_ok_iff.mp hstep
  refine placed_of_decodeField hc ?_ ha
  obtain ⟨pre, post, hl, hspan⟩ := exists_of_mem_fieldsOf hfield
  refine ⟨pre, field.value, post, by rw [hl, List.append_assoc]; rfl, ?_⟩
  rw [recordSpan, hspan, if_pos (Nat.le_add_left _ _), Nat.add_sub_cancel, Nat.zero_add] at hrecord
  rw [← Except.ok.inj hrecord, encodedLength_append, encodedLength_cons, encodedLength_nil,
    Nat.add_zero, Nat.add_assoc]

/-- The slots come before the wrapped key. -/
theorem exists_split {bytes : List UInt8} {l : Contents} (h : Encodes bytes l) {slots cek : Span}
    (hslots : RecordAt l 10 slots) (hcek : RecordAt l 17 cek) :
    ∃ l₁ v l₂ w l₃, l = l₁ ++ [(10, v)] ++ l₂ ++ [(17, w)] ++ l₃ ∧
      slots = ⟨encodedLength l₁, encodedLength (l₁ ++ [(10, v)])⟩ ∧
      cek = ⟨encodedLength (l₁ ++ [(10, v)] ++ l₂),
        encodedLength (l₁ ++ [(10, v)] ++ l₂ ++ [(17, w)])⟩ := by
  have htags := h.increasing
  obtain ⟨pre, v, post, rfl, rfl⟩ := hslots
  obtain ⟨pre', w, post', heq, rfl⟩ := hcek
  have hcases := heq
  rw [List.append_assoc, List.append_assoc, List.append_eq_append_iff] at hcases
  rcases hcases with ⟨mid, rfl, hmid⟩ | ⟨mid, rfl, hmid⟩
  · rcases mid with - | ⟨p, mid⟩
    · exact absurd (congrArg Prod.fst (List.cons.inj hmid).1) (by simp)
    · obtain ⟨rfl, -⟩ := List.cons.inj hmid
      rw [List.append_cons pre (10, v) mid] at heq ⊢
      exact ⟨pre, v, mid, w, post', heq, rfl, rfl⟩
  · -- the other order is not increasing
    rcases mid with - | ⟨p, mid⟩
    · exact absurd (congrArg Prod.fst (List.cons.inj hmid).1) (by simp)
    · obtain ⟨rfl, -⟩ := List.cons.inj hmid
      rw [List.append_assoc, List.map_append, List.pairwise_append] at htags
      exact absurd (htags.2.2 17 (by simp) 10 (by simp)) (by decide)

/-- In a document the tags around a record are other tags. -/
theorem ne_of_increasing {pre post : Contents} {tag : UInt16} {value : List UInt8}
    (htags : ((pre ++ [(tag, value)] ++ post).map Prod.fst).Pairwise (· < ·)) :
    (∀ p ∈ pre, p.1 ≠ tag) ∧ ∀ p ∈ post, p.1 ≠ tag := by
  rw [List.map_append, List.map_append, List.pairwise_append, List.pairwise_append] at htags
  obtain ⟨⟨-, -, hpre⟩, -, hpost⟩ := htags
  refine ⟨fun p hp ↦ ?_, fun p hp ↦ ?_⟩
  · exact (hpre p.1 (List.mem_map_of_mem hp) tag (List.mem_singleton_self tag)).ne
  · refine (hpost tag ?_ p.1 (List.mem_map_of_mem hp)).ne'
    exact List.mem_append_right _ (List.mem_singleton_self tag)

/-- Nothing else is key material. -/
theorem withoutKeyMaterial_split {l₁ l₂ l₃ : Contents} {v w : List UInt8}
    (htags : ((l₁ ++ [(10, v)] ++ l₂ ++ [(17, w)] ++ l₃).map Prod.fst).Pairwise (· < ·)) :
    withoutKeyMaterial (l₁ ++ [(10, v)] ++ l₂ ++ [(17, w)] ++ l₃) = l₁ ++ (l₂ ++ l₃) := by
  obtain ⟨hbefore, hafter⟩ := ne_of_increasing htags
  rw [List.append_assoc _ l₂, List.append_assoc _ (l₂ ++ _)] at htags
  obtain ⟨hbefore', hafter'⟩ := ne_of_increasing htags
  simp only [List.forall_mem_append] at hbefore hafter'
  simp only [withoutKeyMaterial_append, withoutKeyMaterial_keySlots, withoutKeyMaterial_wrappedCek,
    withoutKeyMaterial_eq_self fun p hp ↦ ⟨hbefore' p hp, hbefore.1.1 p hp⟩,
    withoutKeyMaterial_eq_self fun p hp ↦ ⟨hafter'.1.1 p hp, hbefore.2 p hp⟩,
    withoutKeyMaterial_eq_self fun p hp ↦ ⟨hafter'.2 p hp, hafter p hp⟩]
  simp [withoutKeyMaterial]

/-! ### What is hashed -/

theorem piecesFrom_append_nil (pre rest : List UInt8) :
    piecesFrom (pre ++ rest) pre.length [] = .ok rest := by
  have := slice?_append pre rest []
  rw [List.append_nil] at this
  rw [piecesFrom, List.length_append, this, Except.okOr_some]

/-- A range that lies ahead is cut out. -/
theorem piecesFrom_append_cons (pre part cut rest : List UInt8) (ranges : List Span) :
    piecesFrom (pre ++ part ++ cut ++ rest) pre.length
        (⟨(pre ++ part).length, (pre ++ part ++ cut).length⟩ :: ranges) =
      (piecesFrom (pre ++ part ++ cut ++ rest) (pre ++ part ++ cut).length ranges).map
        (part ++ ·) := by
  have hrange : ¬((pre ++ part).length < pre.length ∨
      (pre ++ part ++ cut ++ rest).length < (pre ++ part ++ cut).length) := by
    simp only [List.length_append]
    omega
  have hpiece : slice? (pre ++ part ++ cut ++ rest) pre.length (pre ++ part).length =
      some part := by
    have := slice?_append pre part (cut ++ rest)
    rwa [← List.append_assoc part, ← List.append_assoc, ← List.append_assoc,
      ← List.length_append] at this
  rw [piecesFrom, Except.refuseIf_of_not hrange, Except.ok_bind, hpiece, Except.okOr_some,
    Except.ok_bind]
  rfl

/-- Two ranges are cut out. -/
theorem piecesFrom_two (l₁ s l₂ k l₃ : List UInt8) :
    piecesFrom (l₁ ++ s ++ l₂ ++ k ++ l₃) 0 [⟨l₁.length, (l₁ ++ s).length⟩,
      ⟨(l₁ ++ s ++ l₂).length, (l₁ ++ s ++ l₂ ++ k).length⟩] = .ok (l₁ ++ (l₂ ++ l₃)) := by
  have hfirst := piecesFrom_append_cons [] l₁ s (l₂ ++ k ++ l₃)
  have hsecond := piecesFrom_append_cons (l₁ ++ s) l₂ k l₃
  simp only [List.nil_append, List.length_nil, ← List.append_assoc] at hfirst
  rw [hfirst, hsecond, piecesFrom_append_nil, Except.ok_map, Except.ok_map]

/-- The label, and the document without key material. -/
def coreBytes (l : Contents) : List UInt8 :=
  Label.coreHash.asBytes ++ [0x00] ++ encodeContents (withoutKeyMaterial l)

/-- A document without key material is a document, so it has one reading. -/
theorem coreBytes_eq_iff {bytes₁ bytes₂ : List UInt8} {l₁ l₂ : Contents} (h₁ : Encodes bytes₁ l₁)
    (h₂ : Encodes bytes₂ l₂) :
    coreBytes l₁ = coreBytes l₂ ↔ withoutKeyMaterial l₁ = withoutKeyMaterial l₂ := by
  rw [coreBytes, coreBytes, List.append_cancel_left_eq]
  refine ⟨fun heq ↦ ?_, congrArg encodeContents⟩
  have hread₁ := h₁.of_sublist (List.filter_sublist : (withoutKeyMaterial l₁).Sublist l₁)
  have hread₂ := h₂.of_sublist (List.filter_sublist : (withoutKeyMaterial l₂).Sublist l₂)
  exact hread₁.unique (heq ▸ hread₂)

/-- What is hashed is the document without key material. -/
theorem corePreimage_eq {bytes : List UInt8} {parsed : ParsedHeader} {l : Contents}
    (h : Encodes bytes l) (hplaced : parsed.reading.Placed l) :
    Header.corePreimage bytes parsed.spans = .ok (coreBytes l) := by
  have htags := h.increasing
  obtain ⟨l₁, v, l₂, w, l₃, rfl, hslots, hcek⟩ :=
    exists_split h (hplaced.keySlots _ rfl) (hplaced.wrappedCek _ rfl)
  have hcut : parsed.spans.cut = [parsed.spans.keySlotsRecord, parsed.spans.wrappedCekRecord] := by
    have hle : parsed.spans.keySlotsRecord.start ≤ parsed.spans.wrappedCekRecord.start := by
      rw [hslots, hcek]
      exact encodedLength_le_of_sublist (((List.sublist_append_left _ _).trans
        (List.sublist_append_left _ _)))
    simp [HeaderSpans.cut, hle]
  rw [Header.corePreimage, hcut, hslots, hcek, h.eq_encodeContents, coreBytes,
    withoutKeyMaterial_split htags]
  simp only [← length_encodeContents, encodeContents_append]
  rw [piecesFrom_two, Except.ok_bind]

/-! ### What the hash determines -/

/-- What was read, apart from key material and ranges. -/
def HeaderReading.core (acc : HeaderReading) : HeaderReading :=
  { acc with
    policyValue := none
    keySlots := none
    keySlotsRecord := none
    wrappedCek := none
    wrappedCekRecord := none }

/-- What a field does to the core, wherever it lies. -/
def coreStep (core : HeaderReading) (p : UInt16 × List UInt8) : HeaderReading :=
  match decodeField core.containerVersion ⟨p.1, p.2, ⟨0, 0⟩⟩ ⟨0, 0⟩ with
  | .ok a => (core.assign a).core
  | .error _ => core

/-- Assigning to a field of the header and projecting to the core commute. -/
theorem core_assign (acc : HeaderReading) (a : Assignment) :
    (acc.assign a).core = (acc.core.assign a).core := by
  cases a <;> rfl

/-- The ranges change nothing else. -/
theorem exists_decodeField_at {version : Option UInt16} {field : Field} {record : Span}
    {a : Assignment} (h : decodeField version field record = .ok a) (span record' : Span) :
    ∃ a', decodeField version ⟨field.tag, field.value, span⟩ record' = .ok a' ∧
      ∀ acc : HeaderReading, (acc.assign a).core = (acc.assign a').core := by
  obtain ⟨tag, value, place⟩ := field
  revert h
  unfold decodeField
  dsimp only
  split
  case h_9 =>
    intro h
    obtain ⟨v, hv, h⟩ := Except.bind_eq_ok_iff.mp h
    obtain ⟨policy, hpolicy, h⟩ := Except.bind_eq_ok_iff.mp h
    obtain rfl := Except.ok.inj h
    rw [hv, Except.ok_bind, hpolicy]
    exact ⟨_, rfl, fun _ ↦ rfl⟩
  case h_10 =>
    intro h
    obtain ⟨v, hv, h⟩ := Except.bind_eq_ok_iff.mp h
    obtain ⟨slots, hslots, h⟩ := Except.bind_eq_ok_iff.mp h
    obtain rfl := Except.ok.inj h
    rw [hv, Except.ok_bind, hslots]
    exact ⟨_, rfl, fun _ ↦ rfl⟩
  case h_17 =>
    intro h
    obtain ⟨wrapped, hwrapped, rfl⟩ := Except.map_eq_ok_iff.mp h
    exact ⟨_, Except.map_eq_ok_iff.mpr ⟨wrapped, hwrapped, rfl⟩, fun _ ↦ rfl⟩
  -- no other field looks at a range
  all_goals
    intro h
    exact ⟨a, h, fun _ ↦ rfl⟩

/-- A step acts on the core as the tag and the value say. -/
theorem core_decodeStep {acc acc' : HeaderReading} {field : Field}
    (h : decodeStep acc field = .ok acc') :
    acc'.core = coreStep acc.core (field.tag, field.value) := by
  obtain ⟨record, -, h⟩ := Except.bind_eq_ok_iff.mp h
  obtain ⟨a, ha, rfl⟩ := Except.map_eq_ok_iff.mp h
  obtain ⟨a', ha', hassign⟩ := exists_decodeField_at ha ⟨0, 0⟩ ⟨0, 0⟩
  have hcore : acc.core.containerVersion = acc.containerVersion := rfl
  rw [coreStep, hcore, ha', hassign, core_assign]

/-- Key material does not act on the core. -/
theorem coreStep_of_keyMaterial (acc : HeaderReading) {p : UInt16 × List UInt8}
    (hp : ¬(p.1 ≠ keySlotsTag ∧ p.1 ≠ HeaderTag.wrappedCek)) :
    coreStep acc.core p = acc.core := by
  obtain ⟨tag, value⟩ := p
  rw [not_and_or, not_not, not_not] at hp
  rw [coreStep]
  split
  · rename_i a h
    rcases hp with rfl | rfl
    · obtain ⟨v, -, h⟩ := Except.bind_eq_ok_iff.mp h
      obtain ⟨slots, -, h⟩ := Except.bind_eq_ok_iff.mp h
      obtain rfl := Except.ok.inj h
      rfl
    · obtain ⟨wrapped, -, rfl⟩ := Except.map_eq_ok_iff.mp h
      rfl
  · rfl

/-- **The core is a function of the fields that are not key material.** -/
theorem core_eq_foldl {offset : ℕ} {l : Contents} {acc acc' : HeaderReading}
    (h : (fieldsOf offset l).foldlM decodeStep acc = .ok acc') :
    acc'.core = (withoutKeyMaterial l).foldl coreStep acc.core := by
  -- by induction on the records; a step on key material leaves the core as it is
  induction l generalizing offset acc with
  | nil =>
    obtain rfl := Except.ok.inj h
    rfl
  | cons p l ih =>
    rw [fieldsOf, List.foldlM_cons] at h
    obtain ⟨acc₁, hstep, h⟩ := Except.bind_eq_ok_iff.mp h
    have hcore : acc₁.core = coreStep acc.core p := core_decodeStep hstep
    by_cases hp : p.1 ≠ keySlotsTag ∧ p.1 ≠ HeaderTag.wrappedCek
    · have hkept : withoutKeyMaterial (p :: l) = p :: withoutKeyMaterial l :=
        List.filter_cons_of_pos (decide_eq_true hp)
      rw [ih h, hcore, hkept, List.foldl_cons]
    · have hcut : withoutKeyMaterial (p :: l) = withoutKeyMaterial l :=
        List.filter_cons_of_neg (by rwa [decide_eq_true_iff])
      rw [ih h, hcore, hcut, coreStep_of_keyMaterial _ hp]

/-- Two readings with the same core agree on everything except key material. -/
theorem eq_of_core_eq {parsed parsed' : ParsedHeader}
    (h : parsed.reading.core = parsed'.reading.core) :
    { parsed.header with
      keySlots := parsed'.header.keySlots
      wrappedCek := parsed'.header.wrappedCek } = parsed'.header := by
  obtain ⟨header, spans⟩ := parsed
  obtain ⟨header', spans'⟩ := parsed'
  cases header
  cases header'
  simpa [ParsedHeader.reading, HeaderReading.core] using h

/-- Key material enters the contents in its own two records. -/
theorem withoutKeyMaterial_contents (header : Header) (keySlots : List KeySlot)
    (wrappedCek : List.Vector UInt8 wrappedCekLen) (parts : EncodedParts) (slots : List UInt8) :
    withoutKeyMaterial ({ header with keySlots, wrappedCek }.contents { parts with slots }) =
      withoutKeyMaterial (header.contents parts) := by
  simp only [Header.contents, withoutKeyMaterial_append]
  rfl

/-- The encodings of the other nested records do not depend on key material. -/
theorem Header.Encoded.eq_with_slots {header : Header} {keySlots : List KeySlot}
    {wrappedCek : List.Vector UInt8 wrappedCekLen} {parts parts' : EncodedParts}
    (h : header.Encoded parts) (h' : { header with keySlots, wrappedCek }.Encoded parts') :
    parts' = { parts with slots := parts'.slots } := by
  obtain ⟨suite, policy, slots, authority, coauthors⟩ := parts'
  obtain rfl : parts.suite = suite := Except.ok.inj (h.suite.symm.trans h'.suite)
  obtain rfl : parts.policy = policy := Except.ok.inj (h.policy.symm.trans h'.policy)
  obtain rfl : parts.authority = authority := Except.ok.inj (h.authority.symm.trans h'.authority)
  obtain rfl : parts.coauthors = coauthors := Except.ok.inj (h.coauthors.symm.trans h'.coauthors)
  rfl

/-- Headers that differ in key material only are written with the same other fields. -/
theorem coreFields_encode {header : Header} {keySlots : List KeySlot}
    {wrappedCek : List.Vector UInt8 wrappedCekLen} {bytes bytes' : List UInt8}
    (h : header.encode = .ok bytes) (h' : { header with keySlots, wrappedCek }.encode = .ok bytes') :
    coreFields bytes = coreFields bytes' := by
  obtain ⟨parts, hparts, henc⟩ := Header.encode_eq_ok_iff.mp h
  obtain ⟨parts', hparts', henc'⟩ := Header.encode_eq_ok_iff.mp h'
  rw [hparts.eq_with_slots hparts'] at henc'
  rw [henc.coreFields, henc'.coreFields,
    withoutKeyMaterial_contents header keySlots wrappedCek parts parts'.slots]

/-- **The core hash covers exactly the header minus key material.** For any two accepted headers the
hash is computed, and what is hashed is the same exactly if the top-level fields other than the two
records of key material are. Then the headers agree except for key material; and a change of key
material, whatever it is, does not change what is hashed. -/
theorem coreHash_covers (sha256 : List UInt8 → Digest) {bytes₁ bytes₂ : List UInt8}
    {parsed₁ parsed₂ : ParsedHeader} (h₁ : Header.decode bytes₁ = .ok parsed₁)
    (h₂ : Header.decode bytes₂ = .ok parsed₂) :
    ∃ preimage₁ preimage₂,
      Header.corePreimage bytes₁ parsed₁.spans = .ok preimage₁ ∧
      Header.coreHash sha256 bytes₁ parsed₁.spans = .ok (sha256 preimage₁) ∧
      Header.corePreimage bytes₂ parsed₂.spans = .ok preimage₂ ∧
      Header.coreHash sha256 bytes₂ parsed₂.spans = .ok (sha256 preimage₂) ∧
      (preimage₁ = preimage₂ ↔ coreFields bytes₁ = coreFields bytes₂) ∧
      (preimage₁ = preimage₂ →
        { parsed₁.header with
          keySlots := parsed₂.header.keySlots
          wrappedCek := parsed₂.header.wrappedCek } = parsed₂.header) ∧
      ∀ header : Header, ∀ keySlots wrappedCek, header.encode = .ok bytes₁ →
        { header with keySlots, wrappedCek }.encode = .ok bytes₂ → preimage₁ = preimage₂ := by
  obtain ⟨l₁, henc₁, hfold₁⟩ := exists_reading_of_decode h₁
  obtain ⟨l₂, henc₂, hfold₂⟩ := exists_reading_of_decode h₂
  -- both preimages are those of the documents that were read
  have hpre₁ := corePreimage_eq henc₁ (.run hfold₁)
  have hpre₂ := corePreimage_eq henc₂ (.run hfold₂)
  have hiff : coreBytes l₁ = coreBytes l₂ ↔ coreFields bytes₁ = coreFields bytes₂ := by
    rw [henc₁.coreFields, henc₂.coreFields, Except.ok.injEq]
    exact coreBytes_eq_iff henc₁ henc₂
  refine ⟨_, _, hpre₁, ?_, hpre₂, ?_, hiff, fun heq ↦ ?_,
    fun header keySlots wrappedCek hbytes₁ hbytes₂ ↦ ?_⟩
  · rw [Header.coreHash, hpre₁, Except.ok_map]
  · rw [Header.coreHash, hpre₂, Except.ok_map]
  · apply eq_of_core_eq
    rw [core_eq_foldl hfold₁, core_eq_foldl hfold₂, (coreBytes_eq_iff henc₁ henc₂).mp heq]
  · exact hiff.mpr (coreFields_encode hbytes₁ hbytes₂)

/-- The sample header with a second slot and another wrapped key. -/
def twoSlotsHeader : Header :=
  { sampleHeader with
    keySlots := sampleHeader.keySlots ++ sampleHeader.keySlots
    wrappedCek := List.Vector.replicate wrappedCekLen 0xcc }

/-- The SHA-256 digest of what is hashed of the sample header. -/
def sampleCoreDigest : Digest :=
  ⟨[0x66, 0x3d, 0xa1, 0x7a, 0x17, 0xb5, 0x26, 0xc1, 0x8d, 0xff, 0x61, 0xca, 0xbc, 0x48, 0xd5, 0x56,
    0x5b, 0x29, 0xe0, 0x6a, 0x60, 0x0b, 0xa3, 0x78, 0xf0, 0x98, 0x4c, 0xb4, 0xad, 0x1f, 0x07, 0xb3],
    rfl⟩

/-- The law at two headers with different slots: the bytes differ, the hash does not. -/
theorem coreHash_covers_twoSlotsHeader :
    sampleHeader.bytes ≠ twoSlotsHeader.bytes ∧
      ∃ parsed₁ parsed₂ preimage, Header.decode sampleHeader.bytes = .ok parsed₁ ∧
        Header.decode twoSlotsHeader.bytes = .ok parsed₂ ∧
        Header.corePreimage sampleHeader.bytes parsed₁.spans = .ok preimage ∧
        Header.corePreimage twoSlotsHeader.bytes parsed₂.spans = .ok preimage ∧
        Header.coreHash (fun _ ↦ sampleCoreDigest) sampleHeader.bytes parsed₁.spans =
          .ok sampleCoreDigest ∧
        Header.coreHash (fun _ ↦ sampleCoreDigest) twoSlotsHeader.bytes parsed₂.spans =
          .ok sampleCoreDigest := by
  have hread₁ : (Header.decode sampleHeader.bytes).map (·.header) = .ok sampleHeader := by
    decide +kernel
  have hread₂ : (Header.decode twoSlotsHeader.bytes).map (·.header) = .ok twoSlotsHeader := by
    decide +kernel
  obtain ⟨parsed₁, hparsed₁, -⟩ := Except.map_eq_ok_iff.mp hread₁
  obtain ⟨parsed₂, hparsed₂, -⟩ := Except.map_eq_ok_iff.mp hread₂
  obtain ⟨preimage, _, hpre₁, hhash₁, hpre₂, hhash₂, -, -, hchange⟩ :=
    coreHash_covers (fun _ ↦ sampleCoreDigest) hparsed₁ hparsed₂
  obtain rfl := hchange sampleHeader twoSlotsHeader.keySlots twoSlotsHeader.wrappedCek
    (by decide +kernel) (by decide +kernel)
  exact ⟨by decide +kernel, parsed₁, parsed₂, preimage, hparsed₁, hparsed₂, hpre₁, hpre₂, hhash₁,
    hhash₂⟩

end OpenCrate.Format
