import OpenCrate.Crypto.Kdf
import OpenCrate.Data.PrefixFree
import OpenCrate.Format.TlvRecord

/-!
# Footers

What may stand behind the frames: content that authenticates itself, at present the token of a time service.
The service stamps the imprint of the file, which names the core of the header, the root of the tree, the
length and the counter of edits; nothing else of the file enters it.
-/

namespace OpenCrate.Format

open Crypto
open Except (refuseIf okOr)

/-- Tag of the timestamp. -/
def FooterTag.timestamp : UInt16 := 1

/-- Upper bound on the footer. -/
def maxFooterLen : ℕ := 32 * 1024

/-- Upper bound on the timestamp. -/
def maxTokenLen : ℕ := 16 * 1024

/-- Parsed footer. -/
structure Footer where
  /-- The sole content, and required: an empty footer attests nothing. -/
  timestamp : List UInt8
  deriving DecidableEq

namespace Footer

/-- Footer bytes. -/
def encode (footer : Footer) : Except FormatError (List UInt8) := do
  refuseIf (footer.timestamp = [] ∨ maxTokenLen < footer.timestamp.length)
    (.badFieldLength FooterTag.timestamp footer.timestamp.length)
  let w ← TlvWriter.new.put FooterTag.timestamp footer.timestamp
  .ok w.finish

/-- The fields of a footer read so far. -/
structure Reading where
  timestamp : Option (List UInt8) := none

/-- A token of admissible length. -/
def timestampField (f : Field) : Except FormatError (List UInt8) := do
  refuseIf (f.value = [] ∨ maxTokenLen < f.value.length) f.badLength
  .ok f.value

/-- One field of a footer. -/
def decodeStep (acc : Reading) (f : Field) : Except FormatError Reading :=
  match f.tag with
  | 1 => (timestampField f).map fun v ↦ { acc with timestamp := some v }
  | other => skipUnknown other acc

/-- Parse the entire footer: the bytes from its offset to the end of the file. -/
def decode (bytes : List UInt8) : Except FormatError Footer := do
  refuseIf (maxFooterLen < bytes.length) (.badFieldLength 0 bytes.length)
  let acc ← TlvReader.foldFields decodeStep (TlvReader.new bytes) {}
  let timestamp ← okOr acc.timestamp (.missingField FooterTag.timestamp)
  .ok ⟨timestamp⟩

/-- A token that is written and read. -/
def Fits (footer : Footer) : Prop := footer.timestamp ≠ [] ∧ footer.timestamp.length ≤ maxTokenLen

variable {footer : Footer} {bytes : List UInt8}

theorem not_fits_iff : footer.timestamp = [] ∨ maxTokenLen < footer.timestamp.length ↔ ¬footer.Fits := by
  rw [Fits, not_and_or, not_not, not_le]

theorem encode_eq_ok_iff :
    footer.encode = .ok bytes ↔ footer.Fits ∧ Encodes bytes [(FooterTag.timestamp, footer.timestamp)] := by
  simp only [encode, TlvWriter.new_put_bind, TlvWriter.putMany_finish_eq_ok_iff, Except.check_bind_eq_ok_iff,
    Except.refuseIf_eq_ok_iff, not_fits_iff, not_not]

/-- The tags of a footer. -/
def tags : List UInt16 := [1]

theorem recordStep_decodeStep : RecordStep tags decodeStep where
  span_free _ _ _ _ _ := rfl
  skips acc tag value span h := by
    unfold decodeStep
    split <;> first | rfl | simp_all [tags]

/-- A token is read into its slot. -/
theorem readField_timestamp {acc acc' : Reading} {value : List UInt8} :
    readField decodeStep acc (FooterTag.timestamp, value) = .ok acc' ↔
      (⟨value⟩ : Footer).Fits ∧ acc' = ⟨some value⟩ := by
  have hfits : value = [] ∨ maxTokenLen < value.length ↔ ¬(⟨value⟩ : Footer).Fits := not_fits_iff
  simp only [readField, decodeStep, FooterTag.timestamp, timestampField, Except.map_eq_ok_iff,
    Except.bind_eq_ok_iff, Except.refuseIf_eq_ok_iff, hfits, not_not]
  constructor
  · intro h
    obtain ⟨_, ⟨_, hfits, hvalue⟩, rfl⟩ := h
    obtain rfl := Except.ok.inj hvalue
    exact ⟨hfits, rfl⟩
  · intro h
    obtain ⟨hfits, rfl⟩ := h
    exact ⟨value, ⟨(), hfits, rfl⟩, rfl⟩

/-- The fields behind the first one have greater tags. -/
theorem optional_of_increasing {p : UInt16 × List UInt8} {rest : Contents}
    (hinc : ((p :: rest).map Prod.fst).Pairwise (· < ·))
    (hopt : ∀ q ∈ p :: rest, q.1 ∉ tags → critTagMax < q.1) (hp : 1 ≤ p.1) :
    ∀ q ∈ rest, critTagMax < q.1 := by
  intro q hq
  have hlt : p.1 < q.1 := (List.pairwise_cons.mp hinc).1 q.1 (List.mem_map_of_mem hq)
  refine hopt q (List.mem_cons_of_mem p hq) fun htag ↦ ?_
  rw [List.mem_singleton.mp htag] at hlt
  exact absurd hlt (not_lt.mpr hp)

/-- **What is read as a footer**: a token of admissible length, and optional fields behind it. -/
theorem decode_eq_ok_iff :
    decode bytes = .ok footer ↔ footer.Fits ∧ bytes.length ≤ maxFooterLen ∧
      ∃ extra : Contents, (∀ p ∈ extra, critTagMax < p.1) ∧
        Encodes bytes ((FooterTag.timestamp, footer.timestamp) :: extra) := by
  have hknown : ∀ extra : Contents, (∀ p ∈ extra, critTagMax < p.1) →
      extra.filter (fun p ↦ p.1 ∈ tags) = [] := by
    intro extra hextra
    refine List.filter_eq_nil_iff.mpr fun p hp ↦ ?_
    have hlt := hextra p hp
    rw [decide_eq_true_iff]
    intro htag
    rw [List.mem_singleton.mp htag] at hlt
    exact absurd hlt (by decide)
  simp only [decode, Except.bind_eq_ok_iff, Except.refuseIf_eq_ok_iff, not_lt, Except.okOr_eq_ok_iff]
  constructor
  · intro h
    obtain ⟨_, hlen, acc, hfold, timestamp, hacc, hfooter⟩ := h
    obtain rfl := Except.ok.inj hfooter
    obtain ⟨l, henc, -⟩ := exists_encodes_of_foldFields hfold
    rw [recordStep_decodeStep.foldFields_eq henc] at hfold
    have hopt := recordStep_decodeStep.optional_of_foldlM hfold
    rw [recordStep_decodeStep.foldlM_eq_filter hopt] at hfold
    rcases l with - | ⟨p, rest⟩
    · obtain rfl := Except.ok.inj hfold
      exact absurd hacc (by simp)
    · by_cases hp : p.1 = FooterTag.timestamp
      · -- the token stands first, and everything behind it is optional
        obtain ⟨tag, value⟩ := p
        obtain rfl : tag = FooterTag.timestamp := hp
        have hrest := optional_of_increasing henc.increasing hopt le_rfl
        rw [List.filter_cons_of_pos (by rfl), hknown rest hrest, List.foldlM_cons] at hfold
        obtain ⟨acc', hread, hnil⟩ := Except.bind_eq_ok_iff.mp hfold
        obtain ⟨hfits, rfl⟩ := readField_timestamp.mp hread
        obtain rfl := Except.ok.inj hnil
        obtain rfl := Option.some.inj hacc
        exact ⟨hfits, hlen, rest, hrest, henc⟩
      · -- without a token in front there is none at all
        have hcrit := hopt p List.mem_cons_self fun htag ↦ hp (List.mem_singleton.mp htag)
        have hone : 1 ≤ p.1 := le_trans (by decide) hcrit.le
        have hall : ∀ q ∈ p :: rest, critTagMax < q.1 :=
          List.forall_mem_cons.mpr ⟨hcrit, optional_of_increasing henc.increasing hopt hone⟩
        rw [hknown _ hall] at hfold
        obtain rfl := Except.ok.inj hfold
        exact absurd hacc (by simp)
  · intro h
    obtain ⟨hfits, hlen, extra, hextra, henc⟩ := h
    refine ⟨(), hlen, ⟨some footer.timestamp⟩, ?_, footer.timestamp, rfl, rfl⟩
    have hopt : ∀ p ∈ (FooterTag.timestamp, footer.timestamp) :: extra, p.1 ∉ tags → critTagMax < p.1 :=
      List.forall_mem_cons.mpr ⟨fun htag ↦ absurd List.mem_cons_self htag, fun p hp _ ↦ hextra p hp⟩
    rw [recordStep_decodeStep.foldFields_eq henc, recordStep_decodeStep.foldlM_eq_filter hopt,
      List.filter_cons_of_pos (by rfl), hknown extra hextra, List.foldlM_cons,
      readField_timestamp.mpr ⟨hfits, rfl⟩]
    rfl

/-- A written footer is short. -/
theorem length_of_encode (h : footer.encode = .ok bytes) : bytes.length ≤ maxFooterLen := by
  obtain ⟨hfits, henc⟩ := encode_eq_ok_iff.mp h
  have hlen := henc.length_eq
  rw [encodedLength_cons, encodedLength_nil] at hlen
  have htoken := hfits.2
  simp only [fieldPrefixLen, maxTokenLen, maxFooterLen] at hlen htoken ⊢
  omega

/-- **A written footer is read back.** -/
theorem decode_encode (h : footer.encode = .ok bytes) : decode bytes = .ok footer := by
  obtain ⟨hfits, henc⟩ := encode_eq_ok_iff.mp h
  exact decode_eq_ok_iff.mpr ⟨hfits, length_of_encode h, [], by simp, henc⟩

end Footer

/-! ### Imprints -/

/-- What is hashed into the imprint of a file. -/
def imprintTranscript (coreHash treeRoot : Digest) (totalLen versionCounter : UInt64) : Transcript :=
  ((((Transcript.new .footerImprint).fixed coreHash.toList).fixed treeRoot.toList).u64be totalLen).u64be
    versionCounter

/-- File imprint for the timestamp. -/
def imprint (sha256 : List UInt8 → Digest) (coreHash treeRoot : Digest) (totalLen versionCounter : UInt64) :
    Digest :=
  sha256 (imprintTranscript coreHash treeRoot totalLen versionCounter).asBytes

/-- What is hashed names everything it is made of. -/
theorem imprintTranscript_inj {coreHash coreHash' treeRoot treeRoot' : Digest}
    {totalLen totalLen' versionCounter versionCounter' : UInt64}
    (h : (imprintTranscript coreHash treeRoot totalLen versionCounter).asBytes =
      (imprintTranscript coreHash' treeRoot' totalLen' versionCounter').asBytes) :
    coreHash = coreHash' ∧ treeRoot = treeRoot' ∧ totalLen = totalLen' ∧ versionCounter = versionCounter' := by
  simp only [imprintTranscript, Transcript.asBytes, Transcript.new, Transcript.fixed, Transcript.u64be,
    List.append_assoc, List.append_cancel_left_eq] at h
  obtain ⟨hcore, h⟩ := prefixFree_vector 32 _ _ _ _ h
  obtain ⟨hroot, h⟩ := prefixFree_vector 32 _ _ _ _ h
  obtain ⟨htotal, h⟩ := prefixFree_toBeBytes _ _ _ _ h
  exact ⟨hcore, hroot, htotal, prefixFree_toBeBytes.injective h⟩

end OpenCrate.Format
