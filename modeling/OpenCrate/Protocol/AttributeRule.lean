import OpenCrate.Data.Framed
import OpenCrate.Format.PolicyMeaning
import OpenCrate.Format.TlvRecord
import OpenCrate.Format.Verify

/-!
# Rules on holder attributes

`attribute_rule` of `oc-protocol`: conditions on the attributes of a device that a file sets for the
issuance of leases, a cap on their lifetime, and restrictions for those who do not meet a condition.
What is checked on writing and on reading is one function; a rule that passes it can be written, and
it is read back with its profiles in normal form.
-/

namespace OpenCrate.Protocol.AttributeRule

open OpenCrate.Format
open Except (refuseIf okOr)

/-- Maximum attribute name and value length, in bytes. -/
def maxNameBytes : ℕ := 64

/-- Number of values per condition. -/
def maxValues : ℕ := 64

/-- Number of issuance conditions in a rule. -/
def maxClauses : ℕ := 16

/-- Number of restrictions in a rule. -/
def maxTightenings : ℕ := 8

namespace Tag

def maxLease : UInt16 := 1

def clauses : UInt16 := 2

def tightenings : UInt16 := 3

end Tag

/-- How a condition interprets its values. -/
inductive Mode where
  /-- At least one listed value. -/
  | anyOf
  /-- All listed values. -/
  | allOf
  /-- A value ranked at least as high as the specified one. -/
  | atLeast
  deriving DecidableEq

namespace Mode

def toU8 : Mode → UInt8
  | anyOf => 1
  | allOf => 2
  | atLeast => 3

def fromU8 : UInt8 → Option Mode
  | 1 => some anyOf
  | 2 => some allOf
  | 3 => some atLeast
  | _ => none

@[simp] theorem fromU8_toU8 (mode : Mode) : fromU8 mode.toU8 = some mode := by
  cases mode <;> rfl

theorem toU8_of_fromU8 {byte : UInt8} {mode : Mode} (h : fromU8 byte = some mode) :
    mode.toU8 = byte := by
  unfold fromU8 at h
  split at h <;> cases h <;> rfl

end Mode

/-- One rule condition: attribute, mode, values. -/
structure Clause where
  attribute_ : String
  mode : Mode
  values : List String
  deriving DecidableEq

/-- Holder-based restriction: who does not satisfy `unless_` gets no more than `profile`. -/
structure Tightening where
  unless_ : Clause
  profile : Policy
  deriving DecidableEq

/-- File rule: all conditions together, a lease lifetime cap and holder-based restrictions. -/
structure Rule where
  clauses : List Clause
  maxLeaseSeconds : Option Int64
  tightenings : List Tightening
  deriving DecidableEq

/-- A byte of an identifier: a Latin letter, a digit, or one of `_ . : / -`. -/
def isIdentifierByte (b : UInt8) : Bool :=
  (0x30 ≤ b && b ≤ 0x39) || (0x41 ≤ b && b ≤ 0x5a) || (0x61 ≤ b && b ≤ 0x7a) ||
    b ∈ [0x5f, 0x2e, 0x3a, 0x2f, 0x2d]

/-- A string is an identifier. -/
def isIdentifier (text : String) : Bool :=
  !(utf8 text).isEmpty && decide ((utf8 text).length ≤ maxNameBytes) &&
    (utf8 text).all isIdentifierByte

/-- The condition is satisfiable. -/
def checkClause (at_ : UInt16) (clause : Clause) : Except FormatError Unit := do
  refuseIf (isIdentifier clause.attribute_ = false ∨ clause.values.all isIdentifier = false)
    (.unknownCriticalField at_)
  refuseIf (clause.values = [] ∨ maxValues < clause.values.length)
    (.badFieldLength at_ clause.values.length)
  refuseIf (clause.mode = .atLeast ∧ clause.values.length ≠ 1)
    (.badFieldLength at_ clause.values.length)

/-- Checks shared by encoding and decoding. -/
def check (rule : Rule) : Except FormatError Unit := do
  refuseIf (maxClauses < rule.clauses.length) (.badFieldLength Tag.clauses rule.clauses.length)
  refuseIf (maxTightenings < rule.tightenings.length)
    (.badFieldLength Tag.tightenings rule.tightenings.length)
  refuseIf (∃ seconds ∈ rule.maxLeaseSeconds, seconds ≤ 0) (.unknownCriticalField Tag.maxLease)
  rule.clauses.forM (checkClause Tag.clauses)
  rule.tightenings.forM fun tightening ↦ checkClause Tag.tightenings tightening.unless_

/-- Stream: each item after its length. -/
def stream (at_ : UInt16) (items : List (List UInt8)) : Except FormatError (List UInt8) :=
  enframe (.badFieldLength at_) items

/-- Decode a stream strictly, with at most `limit` entries. -/
def unstream (at_ : UInt16) (bytes : List UInt8) (limit : ℕ) : Except FormatError (List (List UInt8)) :=
  unframe (.badFieldLength at_) (.badFieldLength at_) (fun _ tail ↦ .badFieldLength at_ tail) limit
    bytes []

def encodeClause (clause : Clause) : Except FormatError (List UInt8) := do
  let parts ← stream Tag.clauses (utf8 clause.attribute_ :: clause.values.map utf8)
  .ok (clause.mode.toU8 :: parts)

/-- A name or value. -/
def text (bytes : List UInt8) : Except FormatError String :=
  okOr (fromUtf8? bytes) (.unknownCriticalField Tag.clauses)

def decodeClause (item : List UInt8) : Except FormatError Clause :=
  match item with
  | [] => .error (.badFieldLength Tag.clauses 0)
  | mode :: rest => do
    let mode ← okOr (Mode.fromU8 mode) (.unknownCriticalField Tag.clauses)
    let parts ← unstream Tag.clauses rest (maxValues + 1)
    match parts with
    | [] => .error (.badFieldLength Tag.clauses 0)
    | attribute_ :: values => do
      let attribute_ ← text attribute_
      let values ← values.mapM text
      .ok ⟨attribute_, mode, values⟩

/-- A restriction: its condition and its profile. -/
def encodeTightening (tightening : Tightening) : Except FormatError (List UInt8) := do
  let profile ← PolicyCodec.encode containerVersion tightening.profile
  let unless_ ← encodeClause tightening.unless_
  stream Tag.tightenings [unless_, profile]

def decodeTightening (item : List UInt8) : Except FormatError Tightening := do
  let parts ← unstream Tag.tightenings item 2
  match parts with
  | [unless_, profile] => do
    let unless_ ← decodeClause unless_
    let profile ← PolicyCodec.decode supportedReaderVersion profile
    .ok ⟨unless_, profile⟩
  | parts => .error (.badFieldLength Tag.tightenings parts.length)

/-- The restrictions, written only if there are any. -/
def encodeTightenings (tightenings : List Tightening) : Except FormatError (Option (List UInt8)) :=
  if tightenings = [] then .ok none
  else do
    let items ← tightenings.mapM encodeTightening
    (stream Tag.tightenings items).map some

/-- Encode a rule. -/
def encode (rule : Rule) : Except FormatError (List UInt8) := do
  check rule
  let w ← TlvWriter.new.putOpt Tag.maxLease (rule.maxLeaseSeconds.map toLeBytes)
  let clauses ← rule.clauses.mapM encodeClause
  let clauses ← stream Tag.clauses clauses
  let w ← w.put Tag.clauses clauses
  let tightenings ← encodeTightenings rule.tightenings
  let w ← w.putOpt Tag.tightenings tightenings
  .ok w.finish

/-- The rule read so far. -/
structure Reading where
  rule : Rule := ⟨[], none, []⟩
  clausesSeen : Bool := false

/-- One field of a rule. -/
def decodeStep (acc : Reading) (f : Field) : Except FormatError Reading :=
  match f.tag with
  | 1 => f.le.map fun v ↦ { acc with rule := { acc.rule with maxLeaseSeconds := some v } }
  | 2 => do
    let items ← unstream Tag.clauses f.value maxClauses
    let clauses ← items.mapM decodeClause
    .ok ⟨{ acc.rule with clauses := acc.rule.clauses ++ clauses }, true⟩
  | 3 => do
    let items ← unstream Tag.tightenings f.value maxTightenings
    -- the writer never produces an empty stream
    refuseIf (items = []) (.badFieldLength Tag.tightenings 0)
    let tightenings ← items.mapM decodeTightening
    .ok { acc with rule := { acc.rule with tightenings := acc.rule.tightenings ++ tightenings } }
  | other => skipUnknown other acc

/-- The rule that was read. -/
def Reading.finish (acc : Reading) : Except FormatError Rule := do
  refuseIf (acc.clausesSeen = false) (.missingField Tag.clauses)
  check acc.rule
  .ok acc.rule

/-- Decode a rule strictly. -/
def decode (bytes : List UInt8) : Except FormatError Rule :=
  TlvReader.foldFields decodeStep (TlvReader.new bytes) {} >>= Reading.finish

/-! ### Conditions -/

/-- The name and the values of a condition on the wire. -/
def Clause.parts (clause : Clause) : List (List UInt8) :=
  utf8 clause.attribute_ :: clause.values.map utf8

/-- **A stream of texts is split as it was written**, up to the number that is allowed. -/
theorem unstream_eq_ok_iff {at_ : UInt16} {bytes : List UInt8} {limit : ℕ} {items : List (List UInt8)} :
    unstream at_ bytes limit = .ok items ↔
      items.length ≤ limit ∧ (∀ item ∈ items, item.length < 2 ^ 32) ∧ bytes = frames items := by
  rw [unstream, unframe_eq_ok_iff]
  exact ⟨fun ⟨_, h, hrest⟩ ↦ h ▸ hrest, fun h ↦ ⟨items, rfl, h⟩⟩

/-- A clause is its mode and its parts in frames. -/
theorem encodeClause_eq_ok_iff {clause : Clause} {item : List UInt8} :
    encodeClause clause = .ok item ↔
      (∀ part ∈ clause.parts, part.length < 2 ^ 32) ∧
        item = clause.mode.toU8 :: frames clause.parts := by
  simp only [encodeClause, stream, Except.bind_eq_ok_iff, enframe_eq_ok_iff]
  constructor
  · rintro ⟨_, ⟨hfits, rfl⟩, h⟩
    exact ⟨hfits, (Except.ok.inj h).symm⟩
  · rintro ⟨hfits, rfl⟩
    exact ⟨_, ⟨hfits, rfl⟩, rfl⟩

/-- Texts are read one by one. -/
theorem forall₂_text_iff {values : List (List UInt8)} {texts : List String} :
    List.Forall₂ (fun value t ↦ text value = .ok t) values texts ↔ values = texts.map utf8 := by
  have htext : (fun value t ↦ text value = .ok t) = fun value t ↦ value = utf8 t := by
    ext value t
    rw [text, Except.okOr_eq_ok_iff, fromUtf8?_eq_some_iff]
  rw [htext, ← List.forall₂_map_right_iff, List.forall₂_eq_eq_eq]

/-- **A condition is read back from what it is written as**, and from nothing else. -/
theorem decodeClause_eq_ok_iff {item : List UInt8} {clause : Clause} :
    decodeClause item = .ok clause ↔
      encodeClause clause = .ok item ∧ clause.values.length ≤ maxValues := by
  rw [encodeClause_eq_ok_iff]
  rcases item with - | ⟨mode, rest⟩
  · exact ⟨nofun, fun h ↦ nomatch h.1.2⟩
  simp only [decodeClause, Except.bind_eq_ok_iff, Except.okOr_eq_ok_iff, unstream_eq_ok_iff]
  constructor
  · rintro ⟨mode', hmode, parts, ⟨hroom, hfits, rfl⟩, h⟩
    -- the first part is the name of the attribute, and the others are its values
    rcases parts with - | ⟨name, values⟩
    · cases h
    obtain ⟨attribute_, hname, h⟩ := Except.bind_eq_ok_iff.mp h
    obtain ⟨texts, hvalues, h⟩ := Except.bind_eq_ok_iff.mp h
    obtain rfl := Except.ok.inj h
    obtain rfl := fromUtf8?_eq_some_iff.mp (Except.okOr_eq_ok_iff.mp hname)
    obtain rfl := forall₂_text_iff.mp (Except.mapM_eq_ok_iff.mp hvalues)
    rw [List.length_cons, List.length_map] at hroom
    exact ⟨⟨hfits, by rw [Mode.toU8_of_fromU8 hmode]; rfl⟩, Nat.le_of_succ_le_succ hroom⟩
  · rintro ⟨⟨hfits, heq⟩, hvalues⟩
    obtain ⟨rfl, rfl⟩ := List.cons.inj heq
    refine ⟨clause.mode, Mode.fromU8_toU8 _, clause.parts, ⟨?_, hfits, rfl⟩, ?_⟩
    · rw [Clause.parts, List.length_cons, List.length_map]
      omega
    · refine Except.bind_eq_ok_iff.mpr ⟨clause.attribute_, ?_, Except.bind_eq_ok_iff.mpr
        ⟨clause.values, Except.mapM_eq_ok_iff.mpr (forall₂_text_iff.mpr rfl), rfl⟩⟩
      exact Except.okOr_eq_ok_iff.mpr (fromUtf8?_eq_some_iff.mpr rfl)

/-- An identifier has a bounded length. -/
theorem length_le_of_isIdentifier {text : String} (h : isIdentifier text = true) :
    (utf8 text).length ≤ maxNameBytes := by
  simp only [isIdentifier, Bool.and_eq_true, decide_eq_true_eq] at h
  exact h.1.2

/-- A condition that passed the check can be written, in a few kilobytes. -/
theorem exists_encodeClause {at_ : UInt16} {clause : Clause} (h : checkClause at_ clause = .ok ()) :
    ∃ item, encodeClause clause = .ok item ∧ item.length ≤ 4421 ∧ clause.values.length ≤ maxValues := by
  simp only [checkClause, Except.check_bind_eq_ok_iff, Except.refuseIf_eq_ok_iff, not_or,
    Bool.not_eq_false, List.all_eq_true] at h
  obtain ⟨⟨hname, hvalues⟩, ⟨-, hcount⟩, -⟩ := h
  have hparts : ∀ part ∈ clause.parts, part.length ≤ maxNameBytes := by
    refine List.forall_mem_cons.mpr ⟨length_le_of_isIdentifier hname, ?_⟩
    rw [List.forall_mem_map]
    exact fun value hvalue ↦ length_le_of_isIdentifier (hvalues value hvalue)
  refine ⟨_, encodeClause_eq_ok_iff.mpr ⟨fun part hpart ↦ (hparts part hpart).trans_lt (by decide), rfl⟩,
    ?_, not_lt.mp hcount⟩
  have hlength : clause.parts.length ≤ 65 := by
    rw [Clause.parts, List.length_cons, List.length_map]
    exact Nat.succ_le_succ (not_lt.mp hcount)
  have hframes := length_frames_le hparts
  rw [maxNameBytes] at hframes
  rw [List.length_cons]
  have hmul := Nat.mul_le_mul_right 68 hlength
  omega

/-! ### Restrictions -/

/-- What a restriction is read back as. -/
def Tightening.normal (tightening : Tightening) : Tightening :=
  { tightening with profile := PolicyCodec.normal containerVersion tightening.profile }

/-- **A restriction is read back**, with its profile in normal form. -/
theorem decodeTightening_encodeTightening {tightening : Tightening} {item : List UInt8}
    (h : encodeTightening tightening = .ok item) (hvalues : tightening.unless_.values.length ≤ maxValues) :
    decodeTightening item = .ok tightening.normal := by
  simp only [encodeTightening, stream, Except.bind_eq_ok_iff, enframe_eq_ok_iff] at h
  obtain ⟨profile, hprofile, clause, hclause, hfits, rfl⟩ := h
  obtain ⟨profile', hprofile', -, hread⟩ :=
    PolicyCodec.decode_encode_normal containerVersion tightening.profile
  obtain rfl := Except.ok.inj (hprofile.symm.trans hprofile')
  have hparts : unstream Tag.tightenings (frames [clause, profile]) 2 = .ok [clause, profile] :=
    unstream_eq_ok_iff.mpr ⟨le_rfl, hfits, rfl⟩
  have hunless := decodeClause_eq_ok_iff.mpr ⟨hclause, hvalues⟩
  have hprofile : PolicyCodec.decode supportedReaderVersion profile =
    .ok (PolicyCodec.normal containerVersion tightening.profile) := hread
  simp [decodeTightening, hparts, hunless, hprofile, Tightening.normal]

/-- What is read is in normal form. -/
theorem normal_of_decodeTightening {tightening : Tightening} {item : List UInt8}
    (h : decodeTightening item = .ok tightening) : tightening.normal = tightening := by
  rw [decodeTightening] at h
  obtain ⟨parts, -, h⟩ := Except.bind_eq_ok_iff.mp h
  split at h
  · obtain ⟨unless_, -, h⟩ := Except.bind_eq_ok_iff.mp h
    obtain ⟨profile, hprofile, h⟩ := Except.bind_eq_ok_iff.mp h
    obtain rfl := Except.ok.inj h
    exact congrArg (Tightening.mk unless_) (PolicyCodec.normal_of_decode hprofile)
  · cases h

/-- A restriction whose condition passed the check can be written. -/
theorem exists_encodeTightening {at_ : UInt16} {tightening : Tightening}
    (h : checkClause at_ tightening.unless_ = .ok ()) :
    ∃ item, encodeTightening tightening = .ok item ∧ item.length ≤ 2 ^ 21 := by
  obtain ⟨clause, hclause, hclauseLen, -⟩ := exists_encodeClause h
  obtain ⟨profile, hprofile, -, -⟩ :=
    PolicyCodec.decode_encode_normal containerVersion tightening.profile
  have hprofileLen := PolicyCodec.length_encode_lt hprofile
  refine ⟨frames [clause, profile], ?_, ?_⟩
  · simp only [encodeTightening, stream, Except.bind_eq_ok_iff, enframe_eq_ok_iff]
    refine ⟨profile, hprofile, clause, hclause, ?_, rfl⟩
    simp only [List.forall_mem_cons, List.not_mem_nil, false_implies, implies_true, and_true]
    omega
  · rw [frames_cons, frames_cons, List.length_append, List.length_append, length_frame, length_frame]
    rw [show frames [] = [] from rfl, List.length_nil]
    omega

/-! ### Rules -/

/-- The tags and values of a rule, given the bytes of its conditions and restrictions. -/
def contents (rule : Rule) (clauses : List UInt8) (tightenings : Option (List UInt8)) : Contents :=
  optField Tag.maxLease (rule.maxLeaseSeconds.map toLeBytes) ++
    (Tag.clauses, clauses) :: optField Tag.tightenings tightenings

/-- A rule is its records around its clauses and its tightenings. -/
theorem encode_eq_ok_iff {rule : Rule} {bytes : List UInt8} :
    encode rule = .ok bytes ↔ check rule = .ok () ∧
      ∃ items, rule.clauses.mapM encodeClause = .ok items ∧
        ∃ clauses, stream Tag.clauses items = .ok clauses ∧
          ∃ tightenings, encodeTightenings rule.tightenings = .ok tightenings ∧
            Encodes bytes (contents rule clauses tightenings) := by
  simp only [encode, Except.check_bind_eq_ok_iff, TlvWriter.new_putOpt_bind,
    TlvWriter.putMany_put_bind, TlvWriter.putMany_putOpt_bind, TlvWriter.putMany_bind_eq_ok_iff,
    TlvWriter.putMany_finish_eq_ok_iff, contents, List.cons_append, List.nil_append,
    List.append_assoc]

/-- The tags of a rule. -/
def tags : List UInt16 := [1, 2, 3]

theorem recordStep_decodeStep : RecordStep tags decodeStep where
  span_free _ _ _ _ _ := rfl
  skips acc tag value span h := by
    unfold decodeStep
    split <;> first | rfl | simp_all [tags]

/-- What a rule is read back as. -/
def Rule.normal (rule : Rule) : Rule :=
  { rule with tightenings := rule.tightenings.map Tightening.normal }

/-- What passes the check: few conditions and restrictions, each satisfiable. -/
theorem check_eq_ok_iff {rule : Rule} :
    check rule = .ok () ↔
      rule.clauses.length ≤ maxClauses ∧ rule.tightenings.length ≤ maxTightenings ∧
        (∀ seconds ∈ rule.maxLeaseSeconds, 0 < seconds) ∧
        (∀ clause ∈ rule.clauses, checkClause Tag.clauses clause = .ok ()) ∧
        ∀ tightening ∈ rule.tightenings, checkClause Tag.tightenings tightening.unless_ = .ok () := by
  simp only [check, Except.check_bind_eq_ok_iff, Except.refuseIf_eq_ok_iff, Except.forM_eq_ok_iff,
    not_lt, not_exists, not_and, Int64.not_le]

/-- The check does not see the difference to the normal form, and neither does the writer. -/
theorem check_normal (rule : Rule) : check rule.normal = .ok () ↔ check rule = .ok () := by
  rw [check_eq_ok_iff, check_eq_ok_iff, Rule.normal, List.length_map, List.forall_mem_map]
  rfl

theorem encodeTightening_normal (tightening : Tightening) :
    encodeTightening tightening.normal = encodeTightening tightening := by
  rw [encodeTightening, encodeTightening, Tightening.normal, PolicyCodec.encode_normal]

theorem encodeTightenings_normal (tightenings : List Tightening) :
    encodeTightenings (tightenings.map Tightening.normal) = encodeTightenings tightenings := by
  simp only [encodeTightenings, List.map_eq_nil_iff, List.mapM_map, Function.comp_def,
    encodeTightening_normal]

/-- The bytes of a rule are those of its normal form. -/
theorem encode_normal {rule : Rule} {bytes : List UInt8} (h : encode rule = .ok bytes) :
    encode rule.normal = .ok bytes := by
  obtain ⟨hcheck, hrest⟩ := Except.check_bind_eq_ok_iff.mp h
  refine Except.check_bind_eq_ok_iff.mpr ⟨(check_normal rule).mpr hcheck, ?_⟩
  simp only [Rule.normal, encodeTightenings_normal]
  exact hrest

/-- The conditions come back. -/
theorem foldlM_clauses {rule : Rule} (hcheck : check rule = .ok ()) {items : List (List UInt8)}
    (hitems : rule.clauses.mapM encodeClause = .ok items) {clauses : List UInt8}
    (hclauses : stream Tag.clauses items = .ok clauses) {acc : Reading} (hacc : acc.rule.clauses = []) :
    readField decodeStep acc (Tag.clauses, clauses) =
      .ok ⟨{ acc.rule with clauses := rule.clauses }, true⟩ := by
  obtain ⟨hcount, -, -, hall, -⟩ := check_eq_ok_iff.mp hcheck
  obtain ⟨hfits, rfl⟩ := enframe_eq_ok_iff.mp hclauses
  have hforall := Except.mapM_eq_ok_iff.mp hitems
  have hstream : unstream Tag.clauses (frames items) maxClauses = .ok items :=
    unstream_eq_ok_iff.mpr ⟨hforall.length_eq ▸ hcount, hfits, rfl⟩
  have hread : items.mapM decodeClause = .ok rule.clauses := by
    refine Except.mapM_eq_ok_iff.mpr (List.Forall₂.flip ?_)
    refine ((List.forall₂_and_left _ _).mpr ⟨hall, hforall⟩).imp fun clause item h ↦ ?_
    obtain ⟨item', hitem', -, hvalues⟩ := exists_encodeClause h.1
    exact decodeClause_eq_ok_iff.mpr ⟨h.2, hvalues⟩
  simp [readField, decodeStep, Tag.clauses] at hstream ⊢
  simp [hstream, hread, hacc]

/-- The restrictions come back, with their profiles in normal form. -/
theorem foldlM_tightenings {rule : Rule} (hcheck : check rule = .ok ())
    {tightenings : Option (List UInt8)}
    (htightenings : encodeTightenings rule.tightenings = .ok tightenings) {acc : Reading}
    (hacc : acc.rule.tightenings = []) :
    (optField Tag.tightenings tightenings).foldlM (readField decodeStep) acc =
      .ok { acc with
        rule := { acc.rule with tightenings := rule.tightenings.map Tightening.normal } } := by
  obtain ⟨-, hcount, -, -, hall⟩ := check_eq_ok_iff.mp hcheck
  rw [encodeTightenings] at htightenings
  split_ifs at htightenings with hnil
  · obtain rfl := Except.ok.inj htightenings
    rw [hnil, List.map_nil, ← hacc]
    rfl
  obtain ⟨items, hitems, h⟩ := Except.bind_eq_ok_iff.mp htightenings
  obtain ⟨bytes, hbytes, rfl⟩ := Except.map_eq_ok_iff.mp h
  obtain ⟨hfits, rfl⟩ := enframe_eq_ok_iff.mp hbytes
  have hforall := Except.mapM_eq_ok_iff.mp hitems
  have hstream : unstream Tag.tightenings (frames items) maxTightenings = .ok items :=
    unstream_eq_ok_iff.mpr ⟨hforall.length_eq ▸ hcount, hfits, rfl⟩
  have hread : items.mapM decodeTightening = .ok (rule.tightenings.map Tightening.normal) := by
    refine Except.mapM_eq_ok_iff.mpr (List.forall₂_map_right_iff.mpr (List.Forall₂.flip ?_))
    refine ((List.forall₂_and_left _ _).mpr ⟨hall, hforall⟩).imp fun tightening item h ↦ ?_
    obtain ⟨-, -, -, hvalues⟩ := exists_encodeClause h.1
    exact decodeTightening_encodeTightening h.2 hvalues
  have hsome : items ≠ [] := by
    rintro rfl
    exact hnil (List.forall₂_nil_right_iff.mp hforall)
  simp [readField, decodeStep, Tag.tightenings] at hstream ⊢
  simp [hstream, hread, hacc, hsome, Except.refuseIf]

/-- **A rule is read back**, with its profiles in normal form. -/
theorem decode_encode {rule : Rule} {bytes : List UInt8} (h : encode rule = .ok bytes) :
    decode bytes = .ok rule.normal := by
  obtain ⟨hcheck, items, hitems, clauses, hclauses, tightenings, htightenings, henc⟩ :=
    encode_eq_ok_iff.mp h
  have hlease : (optField Tag.maxLease (rule.maxLeaseSeconds.map toLeBytes)).foldlM
      (readField decodeStep) {} = .ok ⟨⟨[], rule.maxLeaseSeconds, []⟩, false⟩ :=
    foldlM_optField (fun seconds ↦ (⟨⟨[], seconds, []⟩, false⟩ : Reading))
      fun seconds _ ↦ by simp [readField, decodeStep, Tag.maxLease]
  rw [decode, recordStep_decodeStep.foldFields_eq henc, contents, List.foldlM_append, hlease,
    Except.ok_bind, List.foldlM_cons, foldlM_clauses hcheck hitems hclauses rfl, Except.ok_bind,
    foldlM_tightenings hcheck htightenings rfl, Except.ok_bind]
  have hnormal := (check_normal rule).mpr hcheck
  rw [Rule.normal] at hnormal ⊢
  simp [Reading.finish, Except.refuseIf, hnormal]

/-- Items that can be written each can be written together. -/
theorem exists_mapM {α : Type} {f : α → Except FormatError (List UInt8)} {bound : ℕ} {l : List α}
    (h : ∀ a ∈ l, ∃ item, f a = .ok item ∧ item.length ≤ bound) :
    ∃ items, l.mapM f = .ok items ∧ items.length = l.length ∧ ∀ item ∈ items, item.length ≤ bound := by
  induction l with
  | nil => exact ⟨[], rfl, rfl, nofun⟩
  | cons a l ih =>
    obtain ⟨⟨item, hitem, hlen⟩, hl⟩ := List.forall_mem_cons.mp h
    obtain ⟨items, hitems, hcount, hall⟩ := ih hl
    refine ⟨item :: items, Except.mapM_eq_ok_iff.mpr (.cons hitem (Except.mapM_eq_ok_iff.mp hitems)),
      congrArg (· + 1) hcount, List.forall_mem_cons.mpr ⟨hlen, hall⟩⟩

/-- Every list of bounded texts has a stream. -/
theorem exists_stream (at_ : UInt16) {items : List (List UInt8)} {bound : ℕ}
    (h : ∀ item ∈ items, item.length ≤ bound) (hbound : bound < 2 ^ 32) :
    ∃ bytes, stream at_ items = .ok bytes ∧ bytes.length ≤ items.length * (4 + bound) :=
  ⟨_, enframe_eq_ok_iff.mpr ⟨fun item hitem ↦ (h item hitem).trans_lt hbound, rfl⟩,
    length_frames_le h⟩

/-- Checked tightenings are written, in bounded lengths. -/
theorem exists_encodeTightenings {tightenings : List Tightening}
    (hcount : tightenings.length ≤ maxTightenings)
    (hall : ∀ t ∈ tightenings, checkClause Tag.tightenings t.unless_ = .ok ()) :
    ∃ bytes, encodeTightenings tightenings = .ok bytes ∧ ∀ b ∈ bytes, b.length ≤ 2 ^ 25 := by
  rw [encodeTightenings]
  split_ifs with hnil
  · exact ⟨none, rfl, nofun⟩
  · obtain ⟨items, hitems, hlength, hbound⟩ := exists_mapM fun t ht ↦ exists_encodeTightening (hall t ht)
    obtain ⟨bytes, hbytes, hlen⟩ := exists_stream Tag.tightenings hbound (by decide)
    refine ⟨some bytes, ?_, ?_⟩
    · rw [hitems, Except.ok_bind, hbytes]
      rfl
    · rintro _ ⟨⟩
      rw [maxTightenings] at hcount
      have hmul := Nat.mul_le_mul_right (4 + 2 ^ 21) (hlength.trans_le hcount)
      omega

/-- **A rule that passed the check can be written.** -/
theorem exists_encode {rule : Rule} (h : check rule = .ok ()) :
    ∃ bytes, encode rule = .ok bytes ∧ bytes.length < 2 ^ 32 := by
  obtain ⟨hclausesCount, htighteningsCount, -, hclauses, htightenings⟩ := check_eq_ok_iff.mp h
  have hshort (clause : Clause) (hclause : clause ∈ rule.clauses) :
      ∃ item, encodeClause clause = .ok item ∧ item.length ≤ 4421 := by
    obtain ⟨item, hitem, hlen, -⟩ := exists_encodeClause (hclauses clause hclause)
    exact ⟨item, hitem, hlen⟩
  obtain ⟨items, hitems, hlength, hbound⟩ := exists_mapM hshort
  obtain ⟨clauses, hstream, hlen⟩ := exists_stream Tag.clauses hbound (by decide)
  obtain ⟨tightenings, hencoded, htightLen⟩ := exists_encodeTightenings htighteningsCount htightenings
  rw [maxClauses] at hclausesCount
  have hmul := Nat.mul_le_mul_right (4 + 4421) (hlength.trans_le hclausesCount)
  have hshort : encodedLength (contents rule clauses tightenings) < 2 ^ 32 := by
    -- the field is written only if the rule bounds the lease
    have hlease : encodedLength (optField Tag.maxLease (rule.maxLeaseSeconds.map toLeBytes)) ≤ 14 := by
      cases rule.maxLeaseSeconds <;> simp [fieldPrefixLen, length_toLeBytes]
    have htight : encodedLength (optField Tag.tightenings tightenings) ≤ 6 + 2 ^ 25 := by
      rcases tightenings with - | bytes
      · simp
      · have hlast := htightLen bytes rfl
        rw [optField_some, encodedLength_cons, encodedLength_nil, fieldPrefixLen]
        omega
    rw [contents, encodedLength_append, encodedLength_cons, fieldPrefixLen]
    omega
  have htags : ((contents rule clauses tightenings).map Prod.fst).Pairwise (· < ·) := by
    rw [contents, List.map_append, List.map_cons]
    exact List.Pairwise.sublist ((optField_tags_sublist 1 _).append
      ((optField_tags_sublist 3 _).cons_cons 2)) (by decide)
  obtain ⟨bytes, henc, hbytes⟩ := Encodes.exists_of_short htags hshort
  exact ⟨bytes, encode_eq_ok_iff.mpr ⟨h, items, hitems, clauses, hstream, tightenings, hencoded, henc⟩,
    hbytes⟩

/-! ### What was read -/

/-- One record keeps what was read in normal form. -/
theorem normal_of_decodeStep {acc acc' : Reading} {f : Field}
    (hacc : ∀ t ∈ acc.rule.tightenings, t.normal = t) (h : decodeStep acc f = .ok acc') :
    ∀ t ∈ acc'.rule.tightenings, t.normal = t := by
  rw [decodeStep] at h
  split at h
  · obtain ⟨v, -, rfl⟩ := Except.map_eq_ok_iff.mp h
    exact hacc
  · simp only [Except.bind_eq_ok_iff] at h
    obtain ⟨items, -, clauses, -, h⟩ := h
    obtain rfl := Except.ok.inj h
    exact hacc
  · simp only [Except.bind_eq_ok_iff] at h
    obtain ⟨items, -, ⟨⟩, -, tightenings, hread, h⟩ := h
    obtain rfl := Except.ok.inj h
    exact List.forall_mem_append.mpr
      ⟨hacc, Except.forall_of_mapM hread normal_of_decodeTightening⟩
  · obtain rfl := eq_of_skipUnknown h
    exact hacc

/-- A rule that was read passes the check and is in normal form. -/
theorem sound_of_decode {bytes : List UInt8} {rule : Rule} (h : decode bytes = .ok rule) :
    check rule = .ok () ∧ rule.normal = rule := by
  obtain ⟨acc, hloop, hfinish⟩ := Except.bind_eq_ok_iff.mp h
  simp only [Reading.finish, Except.check_bind_eq_ok_iff] at hfinish
  obtain ⟨-, hcheck, heq⟩ := hfinish
  obtain rfl := Except.ok.inj heq
  obtain ⟨l, -, hfold⟩ := exists_encodes_of_foldFields hloop
  have hinv := Except.foldlM_invariant (P := fun acc : Reading ↦
    ∀ t ∈ acc.rule.tightenings, t.normal = t) hfold
  have hnormal := hinv (List.forall_mem_nil _) fun f _ _ _ hacc hstep ↦ normal_of_decodeStep hacc hstep
  refine ⟨hcheck, ?_⟩
  rw [Rule.normal, List.map_congr_left hnormal, List.map_id']

end OpenCrate.Protocol.AttributeRule
