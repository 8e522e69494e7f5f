import OpenCrate.Format.TlvRecord

/-!
# Unknown fields in canonical documents

`unknown` of `oc-protocol`: the parsers that compare a document with the encoding of what they read
remember which optional fields they skipped, and leave them out of the comparison (`Skipped.strip`).

`CanonicalStep known step` says that a loop reads the tags it knows and hands every other field to
`Skipped.see`. What it skipped, cut out of the document, leaves the document of the fields it knows
(`strip_unknownSpans`), so that a canonical reader accepts exactly the encoding of a value with unknown
optional fields merged into it (`CanonicalStep.decodeCanonical_eq_ok_iff`).
-/

namespace OpenCrate.Protocol

open OpenCrate.Format
open Except (refuseIf okOr)

/-- Reject an unknown critical tag; skip an optional one. -/
def refuseIfCritical (tag : UInt16) : Except FormatError Unit :=
  match unknownTagAction tag with
  | .refuse => .error (.unknownCriticalField tag)
  | .ignore => .ok ()

/-- Ranges of the entries that were skipped. -/
structure Skipped where
  spans : List Span := []
  deriving DecidableEq

namespace Skipped

/-- Observe an unknown field: reject critical, remember optional. -/
def see (skipped : Skipped) (field : Field) : Except FormatError Skipped := do
  refuseIfCritical field.tag
  -- the bounds of the entry, not of its value
  let start ← okOr (checkedSub field.span.start fieldPrefixLen) .offsetOverflow
  .ok ⟨skipped.spans ++ [⟨start, field.span.stop⟩]⟩
where
  checkedSub (a b : ℕ) : Option ℕ := if b ≤ a then some (a - b) else none

/-- One range is cut out: what was kept so far, and the end of the last cut. -/
def cut (body : List UInt8) (acc : List UInt8 × ℕ) (span : Span) : List UInt8 × ℕ :=
  (acc.1 ++ (slice? body acc.2 span.start).getD [], span.stop)

/-- The body without the skipped entries. -/
def strip (skipped : Skipped) (body : List UInt8) : List UInt8 :=
  if skipped.spans = [] then body
  else
    let (out, last) := skipped.spans.foldl (cut body) ([], 0)
    out ++ (slice? body last body.length).getD []

end Skipped

/-- Read a document that has a canonical form: the fields go into their slots, the value is built and
written again, and the bytes must be what was written, the skipped entries left out. -/
def decodeCanonical {σ α : Type} (step : σ × Skipped → Field → Except FormatError (σ × Skipped))
    (init : σ) (build : σ → Except FormatError α) (write : α → Except FormatError (List UInt8))
    (refusal : ℕ → FormatError) (body : List UInt8) : Except FormatError α := do
  let (acc, skipped) ← TlvReader.foldFields step (TlvReader.new body) (init, {})
  let a ← build acc
  let written ← write a
  refuseIf (written ≠ skipped.strip body) (refusal body.length)
  .ok a

/-! ### What is cut out -/

/-- The ranges of the entries whose tags are not known, from an offset on. -/
def unknownSpans (known : List UInt16) : ℕ → Contents → List Span
  | _, [] => []
  | offset, p :: l =>
    let next := offset + (fieldPrefixLen + p.2.length)
    if p.1 ∈ known then unknownSpans known next l else ⟨offset, next⟩ :: unknownSpans known next l

section

variable {known : List UInt16}

/-- Records are written one behind the other. -/
theorem encodeContents_cons (p : UInt16 × List UInt8) (l : Contents) :
    encodeContents (p :: l) = encodeContents [p] ++ encodeContents l :=
  encodeContents_append [p] l

theorem length_encodeContents_singleton (p : UInt16 × List UInt8) :
    (encodeContents [p]).length = fieldPrefixLen + p.2.length := by
  rw [length_encodeContents, encodedLength_cons, encodedLength_nil, Nat.add_zero]

/-- Cutting goes along the entries: what was kept, what lies between the last cut and the current
entry, and the known entries from there on. -/
theorem foldl_cut {body : List UInt8} {l : Contents} {offset last : ℕ} (out : List UInt8)
    (hlast : last ≤ offset) (hoffset : offset ≤ body.length)
    (hbody : body.drop offset = encodeContents l) :
    ∀ r, r = (unknownSpans known offset l).foldl (Skipped.cut body) (out, last) →
      r.2 ≤ body.length ∧ r.1 ++ body.drop r.2 =
        out ++ (body.drop last).take (offset - last) ++
          encodeContents (l.filter fun p ↦ p.1 ∈ known) := by
  induction l generalizing offset last out with
  | nil =>
    rintro _ rfl
    have hend : body.length ≤ offset := List.drop_eq_nil_iff.mp hbody
    refine ⟨hlast.trans hoffset, ?_⟩
    have htake : (body.drop last).length ≤ offset - last := by
      rw [List.length_drop]
      omega
    rw [List.take_of_length_le htake]
    exact (List.append_nil _).symm
  | cons p l ih =>
    rw [encodeContents_cons] at hbody
    have hlen := length_encodeContents_singleton p
    have hnext : offset + (fieldPrefixLen + p.2.length) ≤ body.length := by
      have := congrArg List.length hbody
      rw [List.length_drop, List.length_append, hlen] at this
      omega
    have hrest : body.drop (offset + (fieldPrefixLen + p.2.length)) = encodeContents l := by
      rw [← List.drop_drop, hbody, List.drop_left' hlen]
    by_cases hknown : p.1 ∈ known
    · rw [unknownSpans, if_pos hknown, List.filter_cons_of_pos (by simpa using hknown)]
      intro r hr
      obtain ⟨hle, hkept⟩ := ih out (by omega) hnext hrest r hr
      refine ⟨hle, hkept.trans ?_⟩
      -- the entry joins what lies between the last cut and the next entry
      have hsplit : offset + (fieldPrefixLen + p.2.length) - last =
          (offset - last) + (fieldPrefixLen + p.2.length) := by omega
      have hentry : (body.drop offset).take (fieldPrefixLen + p.2.length) = encodeContents [p] := by
        rw [hbody, List.take_left' hlen]
      rw [hsplit, List.take_add, List.drop_drop, Nat.add_sub_cancel' hlast, hentry,
        encodeContents_cons p (l.filter _), List.append_assoc, List.append_assoc, List.append_assoc]
    · rw [unknownSpans, if_neg hknown, List.filter_cons_of_neg (by simpa using hknown)]
      intro r hr
      have hslice : slice? body last offset = some ((body.drop last).take (offset - last)) :=
        slice?_eq_some_iff.mpr ⟨hlast, hoffset, rfl⟩
      rw [List.foldl_cons, Skipped.cut, hslice] at hr
      obtain ⟨hle, hkept⟩ := ih _ le_rfl hnext hrest r hr
      refine ⟨hle, hkept.trans ?_⟩
      rw [Nat.sub_self, List.take_zero, List.append_nil]
      rfl

/-- **What is left.** A document without its unknown entries is the document of the known ones. -/
theorem strip_unknownSpans (l : Contents) :
    Skipped.strip ⟨unknownSpans known 0 l⟩ (encodeContents l) =
      encodeContents (l.filter fun p ↦ p.1 ∈ known) := by
  obtain ⟨hle, hkept⟩ := @foldl_cut known (encodeContents l) l 0 0 [] le_rfl (Nat.zero_le _) rfl _ rfl
  rw [Nat.sub_zero, List.take_zero, List.append_nil, List.nil_append] at hkept
  rw [Skipped.strip]
  split_ifs with hnone
  · rw [show unknownSpans known 0 l = [] from hnone] at hkept
    exact hkept
  · refine Eq.trans ?_ hkept
    refine congrArg (_ ++ ·) ?_
    rw [slice?, if_pos ⟨hle, le_rfl⟩, Option.getD_some]
    exact List.take_of_length_le (List.length_drop ▸ le_rfl)

/-- A body carries a document: without its unknown fields, which are all optional, it is that. -/
def Carries (known : List UInt16) (body written : List UInt8) : Prop :=
  ∃ l, Encodes body l ∧ (∀ p ∈ l, p.1 ∉ known → critTagMax < p.1) ∧
    written = encodeContents (l.filter fun p ↦ p.1 ∈ known)

/-- A document of known fields carries itself. -/
theorem Carries.refl {bytes : List UInt8} {l : Contents} (henc : Encodes bytes l)
    (hknown : ∀ p ∈ l, p.1 ∈ known) : Carries known bytes bytes := by
  refine ⟨l, henc, fun p hp hunknown ↦ absurd (hknown p hp) hunknown, ?_⟩
  rw [List.filter_eq_self.mpr fun p hp ↦ decide_eq_true (hknown p hp), henc.eq_encodeContents]

/-- A document of known fields carries nothing else. -/
theorem Carries.eq_of_encodes {body written : List UInt8} {l : Contents} (h : Carries known body written)
    (henc : Encodes body l) (hknown : ∀ p ∈ l, p.1 ∈ known) : written = body := by
  obtain ⟨l₀, henc₀, -, rfl⟩ := h
  obtain rfl := henc₀.unique henc
  rw [List.filter_eq_self.mpr fun p hp ↦ decide_eq_true (hknown p hp), henc₀.eq_encodeContents]

/-- The known fields of a body are those of the document it carries. -/
theorem Carries.mem_iff {body written : List UInt8} {l l' : Contents} (h : Carries known body written)
    (hbody : Encodes body l) (hwritten : Encodes written l') {p : UInt16 × List UInt8}
    (hp : p.1 ∈ known) : p ∈ l ↔ p ∈ l' := by
  obtain ⟨l₀, henc, -, rfl⟩ := h
  obtain rfl := henc.unique hbody
  rw [hwritten.unique (henc.of_sublist List.filter_sublist), List.mem_filter]
  exact (and_iff_left (decide_eq_true hp)).symm

/-- What is carried is not longer than what carries it. -/
theorem Carries.length_le {body written : List UInt8} (h : Carries known body written) :
    written.length ≤ body.length := by
  obtain ⟨l, henc, -, rfl⟩ := h
  rw [henc.length_eq, length_encodeContents]
  exact encodedLength_le_of_sublist List.filter_sublist

/-! ### Loops that skip -/

variable {σ : Type} {step : σ × Skipped → Field → Except FormatError (σ × Skipped)}

/-- One round of such a loop on a tag and a value that it knows. -/
def readKnown (step : σ × Skipped → Field → Except FormatError (σ × Skipped)) (s : σ)
    (p : UInt16 × List UInt8) : Except FormatError σ :=
  (step (s, {}) ⟨p.1, p.2, ⟨0, 0⟩⟩).map Prod.fst

/-- A round reads a field it knows without looking at its position or at what was skipped, and has
every other field seen. -/
structure CanonicalStep (known : List UInt16)
    (step : σ × Skipped → Field → Except FormatError (σ × Skipped)) : Prop where
  reads : ∀ s skipped tag value span, tag ∈ known →
    step (s, skipped) ⟨tag, value, span⟩ =
      (readKnown step s (tag, value)).map fun s' ↦ (s', skipped)
  skips : ∀ s skipped tag value span, tag ∉ known →
    step (s, skipped) ⟨tag, value, span⟩ =
      (skipped.see ⟨tag, value, span⟩).map fun skipped' ↦ (s, skipped')

/-- **A record is skipped if its tag is not critical**, and its place is kept. -/
theorem see_eq_ok_iff {skipped skipped' : Skipped} {tag : UInt16} {value : List UInt8} {offset : ℕ} :
    skipped.see ⟨tag, value, ⟨offset + fieldPrefixLen, offset + (fieldPrefixLen + value.length)⟩⟩ =
        .ok skipped' ↔
      critTagMax < tag ∧
        skipped' = ⟨skipped.spans ++ [⟨offset, offset + (fieldPrefixLen + value.length)⟩]⟩ := by
  have hstart : Skipped.see.checkedSub (offset + fieldPrefixLen) fieldPrefixLen = some offset := by
    rw [Skipped.see.checkedSub, if_pos (Nat.le_add_left _ _), Nat.add_sub_cancel]
  have hcritical : refuseIfCritical tag = .ok () ↔ critTagMax < tag := by
    rw [refuseIfCritical, unknownTagAction]
    split_ifs with h
    · exact iff_of_false id (not_lt.mpr h)
    · exact iff_of_true rfl (not_le.mp h)
  rw [Skipped.see, Except.check_bind_eq_ok_iff, hcritical, hstart, Except.okOr_some, Except.ok_bind,
    Except.ok.injEq, eq_comm]

namespace CanonicalStep

/-- **What the loop does.** It goes through if the unknown fields are optional and the known ones are
read, and remembers exactly the unknown ones. -/
theorem foldlM_eq_ok_iff (h : CanonicalStep known step) {l : Contents} {offset : ℕ} {s s' : σ}
    {skipped skipped' : Skipped} :
    (fieldsOf offset l).foldlM step (s, skipped) = .ok (s', skipped') ↔
      (∀ p ∈ l, p.1 ∉ known → critTagMax < p.1) ∧
        (l.filter fun p ↦ p.1 ∈ known).foldlM (readKnown step) s = .ok s' ∧
        skipped' = ⟨skipped.spans ++ unknownSpans known offset l⟩ := by
  -- by induction on the records; a record that is not known leaves only its span behind
  induction l generalizing offset s skipped with
  | nil =>
    simp only [fieldsOf, Except.foldlM_nil, unknownSpans, List.filter_nil, List.append_nil,
      Except.ok.injEq, Prod.mk.injEq]
    constructor
    · rintro ⟨rfl, rfl⟩
      exact ⟨List.forall_mem_nil _, rfl, rfl⟩
    · rintro ⟨-, rfl, rfl⟩
      exact ⟨rfl, rfl⟩
  | cons p l ih =>
    obtain ⟨tag, value⟩ := p
    rw [fieldsOf, List.foldlM_cons, List.forall_mem_cons, Nat.add_assoc]
    -- a known record goes to the reader, and any other one is passed over if it is optional
    by_cases hknown : tag ∈ known
    · rw [h.reads _ _ _ _ _ hknown, List.filter_cons_of_pos (by simpa using hknown),
        List.foldlM_cons, unknownSpans, if_pos hknown]
      simp only [Except.bind_eq_ok_iff, Except.map_eq_ok_iff, exists_exists_and_eq_and, ih]
      constructor
      · rintro ⟨s₁, hread, hopt, hfold, hspans⟩
        exact ⟨⟨fun hunknown ↦ absurd hknown hunknown, hopt⟩, ⟨s₁, hread, hfold⟩, hspans⟩
      · rintro ⟨⟨-, hopt⟩, ⟨s₁, hread, hfold⟩, hspans⟩
        exact ⟨s₁, hread, hopt, hfold, hspans⟩
    · rw [h.skips _ _ _ _ _ hknown, List.filter_cons_of_neg (by simpa using hknown), unknownSpans,
        if_neg hknown]
      simp only [Except.bind_eq_ok_iff, Except.map_eq_ok_iff, exists_exists_and_eq_and]
      have hspans : ∀ rest : List Span, (skipped.spans ++
          [⟨offset, offset + (fieldPrefixLen + value.length)⟩]) ++ rest =
            skipped.spans ++ ⟨offset, offset + (fieldPrefixLen + value.length)⟩ :: rest :=
        fun rest ↦ by rw [List.append_assoc, List.singleton_append]
      constructor
      · rintro ⟨_, hsee, h⟩
        obtain ⟨hcrit, rfl⟩ := see_eq_ok_iff.mp hsee
        obtain ⟨hopt, hfold, rfl⟩ := ih.mp h
        exact ⟨⟨fun _ ↦ hcrit, hopt⟩, hfold, congrArg Skipped.mk (hspans _)⟩
      · rintro ⟨⟨hcrit, hopt⟩, hfold, rfl⟩
        refine ⟨_, see_eq_ok_iff.mpr ⟨hcrit hknown, rfl⟩, ih.mpr ?_⟩
        exact ⟨hopt, hfold, congrArg Skipped.mk (hspans _).symm⟩

/-- **What is read.** Exactly the bodies that carry what the value is written as, if the value is built
from that. -/
theorem decodeCanonical_eq_ok_iff (h : CanonicalStep known step) {init : σ} {α : Type}
    {build : σ → Except FormatError α} {write : α → Except FormatError (List UInt8)}
    {refusal : ℕ → FormatError} {body : List UInt8} {a : α} :
    decodeCanonical step init build write refusal body = .ok a ↔
      ∃ written l acc, Carries known body written ∧ Encodes written l ∧ write a = .ok written ∧
        l.foldlM (readKnown step) init = .ok acc ∧ build acc = .ok a := by
  simp only [decodeCanonical, Except.bind_eq_ok_iff, Except.refuseIf_eq_ok_iff, not_not]
  constructor
  · rintro ⟨⟨acc, skipped⟩, hloop, a', hbuild, written, hwrite, -, hstrip, ha⟩
    obtain rfl := Except.ok.inj ha
    obtain ⟨l, henc, hfold⟩ := exists_encodes_of_foldFields hloop
    obtain ⟨hopt, hread, rfl⟩ := h.foldlM_eq_ok_iff.mp hfold
    have hwritten : written = encodeContents (l.filter fun p ↦ p.1 ∈ known) := by
      rw [hstrip, henc.eq_encodeContents]
      exact strip_unknownSpans l
    subst hwritten
    exact ⟨_, _, acc, ⟨l, henc, hopt, rfl⟩, henc.of_sublist List.filter_sublist, hwrite, hread, hbuild⟩
  · rintro ⟨written, l', acc, ⟨l, henc, hopt, rfl⟩, henc', hwrite, hfold, hbuild⟩
    obtain rfl := (henc.of_sublist List.filter_sublist).unique henc'
    refine ⟨(acc, ⟨unknownSpans known 0 l⟩), ?_, a, hbuild, _, hwrite, (), ?_, rfl⟩
    · rw [henc.foldFields]
      exact h.foldlM_eq_ok_iff.mpr ⟨hopt, hfold, rfl⟩
    · rw [henc.eq_encodeContents, strip_unknownSpans]

end CanonicalStep

end

end OpenCrate.Protocol
