import OpenCrate.Protocol.Activation
import OpenCrate.Protocol.Control

/-!
# Attestation of a device key

`attestation` of `oc-protocol`: what a device shows of the key in its hardware. The structures of the hardware
and the certificates are opaque here; the codec bounds their lengths, and every bound is checked on writing
and on reading.
-/

namespace OpenCrate.Protocol.Attestation

open OpenCrate.Format
open Except (refuseIf okOr)
open Control (splitAtChecked splitAtChecked_eq_some_iff)

def maxPublic : ℕ := 1026

def maxCertificate : ℕ := 8 * 1024

/-- Number of intermediate certificates accepted. -/
def maxIntermediates : ℕ := 2

def maxAttest : ℕ := 1024

def maxSignature : ℕ := 600

def maxCredential : ℕ := 2 + 132 + 2 + 512

/-- Length of the challenge and credential secret. -/
def secretLen : ℕ := 32

namespace Basis

/-- Vendor certificate chaining to the deployment root. -/
def vendorCertificate : UInt8 := 1

/-- Endorsement key pinned by the administrator. -/
def enrolledEk : UInt8 := 2

end Basis

namespace EvidenceTag

def ekPublic : UInt16 := 1

def ekCertificate : UInt16 := 2

def intermediates : UInt16 := 3

def identityPublic : UInt16 := 4

def attest : UInt16 := 5

def signature : UInt16 := 6

def devicePublic : UInt16 := 7

end EvidenceTag

/-- Everything the device presents about its key. -/
structure Evidence where
  ekPublic : List UInt8
  ekCertificate : Option (List UInt8)
  intermediates : List (List UInt8)
  identityPublic : List UInt8
  attest : List UInt8
  signature : List UInt8
  devicePublic : List UInt8
  deriving DecidableEq

/-- A value that is neither empty nor longer than its limit. -/
def bounded (tag : UInt16) (value : List UInt8) (limit : ℕ) : Except FormatError (List UInt8) := do
  refuseIf (value = [] ∨ limit < value.length) (.badFieldLength tag value.length)
  .ok value

/-! ### Writing -/

/-- A value that may be absent. -/
def boundedOpt (tag : UInt16) (limit : ℕ) : Option (List UInt8) → Except FormatError (Option (List UInt8))
  | some value => (bounded tag value limit).map some
  | none => .ok none

/-- One certificate behind those written. -/
def encodeCertificate (chain cert : List UInt8) : Except FormatError (List UInt8) := do
  let cert ← bounded EvidenceTag.intermediates cert maxCertificate
  let len ← okOr (UInt16.tryFrom cert.length) (.badFieldLength EvidenceTag.intermediates cert.length)
  .ok (chain ++ toBeBytes len ++ cert)

/-- The chain of intermediate certificates; an empty one is not written. -/
def encodeIntermediates (certs : List (List UInt8)) : Except FormatError (Option (List UInt8)) :=
  if certs = [] then .ok none
  else do
    refuseIf (maxIntermediates < certs.length) (.badFieldLength EvidenceTag.intermediates certs.length)
    (certs.foldlM encodeCertificate []).map some

/-- Encode evidence. -/
def encodeEvidence (e : Evidence) : Except FormatError (List UInt8) := do
  let ekPublic ← bounded EvidenceTag.ekPublic e.ekPublic maxPublic
  let w ← TlvWriter.new.put EvidenceTag.ekPublic ekPublic
  let ekCertificate ← boundedOpt EvidenceTag.ekCertificate maxCertificate e.ekCertificate
  let w ← w.putOpt EvidenceTag.ekCertificate ekCertificate
  let intermediates ← encodeIntermediates e.intermediates
  let w ← w.putOpt EvidenceTag.intermediates intermediates
  let identityPublic ← bounded EvidenceTag.identityPublic e.identityPublic maxPublic
  let w ← w.put EvidenceTag.identityPublic identityPublic
  let attest ← bounded EvidenceTag.attest e.attest maxAttest
  let w ← w.put EvidenceTag.attest attest
  let signature ← bounded EvidenceTag.signature e.signature maxSignature
  let w ← w.put EvidenceTag.signature signature
  let devicePublic ← bounded EvidenceTag.devicePublic e.devicePublic maxPublic
  let w ← w.put EvidenceTag.devicePublic devicePublic
  .ok w.finish

/-! ### Reading -/

/-- Certificates, each behind its length, while there is room for more. -/
def splitIntermediates (refusal : FormatError) :
    ℕ → List UInt8 → List (List UInt8) → Except FormatError (List (List UInt8))
  | _, [], out => .ok out
  | 0, _ :: _, _ => .error refusal
  | room + 1, byte :: rest, out => do
    let (len, tail) ← okOr (splitAtChecked 2 (byte :: rest)) refusal
    let len : UInt16 ← okOr (ofBeBytes? len) refusal
    let (cert, tail) ← okOr (splitAtChecked len.toNat tail) refusal
    let cert ← bounded EvidenceTag.intermediates cert maxCertificate
    splitIntermediates refusal room tail (out ++ [cert])

/-- The chain of intermediate certificates behind those read. -/
def intermediatesField (seen : List (List UInt8)) (f : Field) : Except FormatError (List (List UInt8)) := do
  refuseIf (f.value = []) (.badFieldLength f.tag 0)
  splitIntermediates f.badLength (maxIntermediates - seen.length) f.value seen

/-- The fields of evidence read so far. -/
structure Reading where
  ekPublic : Option (List UInt8) := none
  ekCertificate : Option (List UInt8) := none
  intermediates : List (List UInt8) := []
  identityPublic : Option (List UInt8) := none
  attest : Option (List UInt8) := none
  signature : Option (List UInt8) := none
  devicePublic : Option (List UInt8) := none

/-- One field of evidence, by the tags of `EvidenceTag`. -/
def decodeStep (acc : Reading) (f : Field) : Except FormatError Reading :=
  match f.tag with
  | 1 => (bounded f.tag f.value maxPublic).map fun v ↦ { acc with ekPublic := some v }
  | 2 => (bounded f.tag f.value maxCertificate).map fun v ↦ { acc with ekCertificate := some v }
  | 3 => (intermediatesField acc.intermediates f).map fun v ↦ { acc with intermediates := v }
  | 4 => (bounded f.tag f.value maxPublic).map fun v ↦ { acc with identityPublic := some v }
  | 5 => (bounded f.tag f.value maxAttest).map fun v ↦ { acc with attest := some v }
  | 6 => (bounded f.tag f.value maxSignature).map fun v ↦ { acc with signature := some v }
  | 7 => (bounded f.tag f.value maxPublic).map fun v ↦ { acc with devicePublic := some v }
  | other => skipUnknown other acc

/-- The evidence that was read. -/
def Reading.evidence (acc : Reading) : Except FormatError Evidence := do
  let ekPublic ← okOr acc.ekPublic (.missingField EvidenceTag.ekPublic)
  let identityPublic ← okOr acc.identityPublic (.missingField EvidenceTag.identityPublic)
  let attest ← okOr acc.attest (.missingField EvidenceTag.attest)
  let signature ← okOr acc.signature (.missingField EvidenceTag.signature)
  let devicePublic ← okOr acc.devicePublic (.missingField EvidenceTag.devicePublic)
  .ok ⟨ekPublic, acc.ekCertificate, acc.intermediates, identityPublic, attest, signature, devicePublic⟩

/-- Decode evidence. -/
def decodeEvidence (bytes : List UInt8) : Except FormatError Evidence := do
  refuseIf (Activation.maxDocument < bytes.length) .offsetOverflow
  TlvReader.foldFields decodeStep (TlvReader.new bytes) {} >>= Reading.evidence

/-- Credentials: two fields behind their lengths, and nothing after them. -/
def checkCredential (bytes : List UInt8) : Except FormatError Unit := do
  let refusal : FormatError := .badFieldLength 0 bytes.length
  refuseIf (bytes = [] ∨ maxCredential < bytes.length) refusal
  let (first, rest) ← okOr (splitAtChecked 2 bytes) refusal
  let first : UInt16 ← okOr (ofBeBytes? first) refusal
  let (_, rest) ← okOr (splitAtChecked first.toNat rest) refusal
  let (second, rest) ← okOr (splitAtChecked 2 rest) refusal
  let second : UInt16 ← okOr (ofBeBytes? second) refusal
  refuseIf (rest.length ≠ second.toNat) refusal

/-! ### Written and read back -/

/-- A value of one byte at least and of its limit at most. -/
def Bounded (limit : ℕ) (value : List UInt8) : Prop := value ≠ [] ∧ value.length ≤ limit

/-- A field with bounds is taken as it is. -/
theorem bounded_eq_ok_iff {tag : UInt16} {value bytes : List UInt8} {limit : ℕ} :
    bounded tag value limit = .ok bytes ↔ Bounded limit value ∧ value = bytes := by
  rw [bounded, Except.check_bind_eq_ok_iff, Except.refuseIf_eq_ok_iff, not_or, not_lt, Except.ok.injEq,
    Bounded]

theorem boundedOpt_eq_ok_iff {tag : UInt16} {limit : ℕ} {value bytes : Option (List UInt8)} :
    boundedOpt tag limit value = .ok bytes ↔ (∀ v ∈ value, Bounded limit v) ∧ value = bytes := by
  cases value with
  | none => simp [boundedOpt]
  | some value =>
    simp only [boundedOpt, Except.map_eq_ok_iff, bounded_eq_ok_iff, Option.mem_def, Option.some.injEq,
      forall_eq']
    constructor
    · rintro ⟨_, ⟨hbounded, rfl⟩, rfl⟩
      exact ⟨hbounded, rfl⟩
    · rintro ⟨hbounded, rfl⟩
      exact ⟨_, ⟨hbounded, rfl⟩, rfl⟩

/-- A certificate behind its length. -/
def certificateBytes (cert : List UInt8) : List UInt8 := toBeBytes (UInt16.ofNat cert.length) ++ cert

/-- A certificate is written behind the others, if it fits. -/
theorem encodeCertificate_eq_ok_iff {chain cert bytes : List UInt8} :
    encodeCertificate chain cert = .ok bytes ↔
      Bounded maxCertificate cert ∧ bytes = chain ++ certificateBytes cert := by
  simp only [encodeCertificate, Except.bind_eq_ok_iff, bounded_eq_ok_iff, Except.okOr_eq_ok_iff,
    UInt16.tryFrom_eq_some_iff, Except.ok.injEq, certificateBytes]
  constructor
  · rintro ⟨_, ⟨hbounded, rfl⟩, len, hlen, rfl⟩
    refine ⟨hbounded, ?_⟩
    rw [← hlen, UInt16.ofNat_toNat, List.append_assoc]
  · rintro ⟨hbounded, rfl⟩
    have hlt : cert.length < 2 ^ 16 := hbounded.2.trans_lt (by decide)
    exact ⟨_, ⟨hbounded, rfl⟩, _, UInt16.toNat_ofNat_of_lt' hlt, List.append_assoc ..⟩

/-- The loop of the writer over the certificates, from any point on. -/
theorem foldlM_encodeCertificate_eq_ok_iff {chain bytes : List UInt8} {certs : List (List UInt8)} :
    certs.foldlM encodeCertificate chain = .ok bytes ↔
      (∀ cert ∈ certs, Bounded maxCertificate cert) ∧ bytes = chain ++ certs.flatMap certificateBytes := by
  induction certs generalizing chain with
  | nil =>
    rw [Except.foldlM_nil, Except.ok.injEq, List.flatMap_nil, List.append_nil]
    exact ⟨fun h ↦ ⟨nofun, h.symm⟩, fun h ↦ h.2.symm⟩
  | cons cert certs ih =>
    simp only [List.foldlM_cons, Except.bind_eq_ok_iff, encodeCertificate_eq_ok_iff, ih,
      List.forall_mem_cons, List.flatMap_cons]
    constructor
    · rintro ⟨_, ⟨hcert, rfl⟩, hcerts, rfl⟩
      exact ⟨⟨hcert, hcerts⟩, List.append_assoc ..⟩
    · rintro ⟨⟨hcert, hcerts⟩, rfl⟩
      exact ⟨_, ⟨hcert, rfl⟩, hcerts, (List.append_assoc ..).symm⟩

/-- The value of the chain of certificates. -/
def chainValue (certs : List (List UInt8)) : Option (List UInt8) :=
  if certs = [] then none else some (certs.flatMap certificateBytes)

/-- The field is left out if there are no intermediate certificates. -/
theorem encodeIntermediates_eq_ok_iff {certs : List (List UInt8)} {value : Option (List UInt8)} :
    encodeIntermediates certs = .ok value ↔ (certs.length ≤ maxIntermediates ∧
      ∀ cert ∈ certs, Bounded maxCertificate cert) ∧ value = chainValue certs := by
  rw [encodeIntermediates, chainValue]
  split_ifs with h
  · subst h
    simp [eq_comm]
  · simp only [Except.check_bind_eq_ok_iff, Except.refuseIf_eq_ok_iff, not_lt, Except.map_eq_ok_iff,
      foldlM_encodeCertificate_eq_ok_iff, List.nil_append]
    constructor
    · rintro ⟨hlen, _, ⟨hcerts, rfl⟩, rfl⟩
      exact ⟨⟨hlen, hcerts⟩, rfl⟩
    · rintro ⟨⟨hlen, hcerts⟩, rfl⟩
      exact ⟨hlen, _, ⟨hcerts, rfl⟩, rfl⟩

/-- **The certificates are split as they were written**, with as much room as there are of them. -/
theorem splitIntermediates_flatMap {refusal : FormatError} {room : ℕ} {certs out : List (List UInt8)}
    (hroom : certs.length ≤ room) (hcerts : ∀ cert ∈ certs, Bounded maxCertificate cert) :
    splitIntermediates refusal room (certs.flatMap certificateBytes) out = .ok (out ++ certs) := by
  -- by induction on the certificates; the loop spends one unit of its room on each of them
  induction certs generalizing room out with
  | nil =>
    rw [List.flatMap_nil, List.append_nil]
    unfold splitIntermediates
    rfl
  | cons cert certs ih =>
    obtain ⟨hcert, hcerts⟩ := List.forall_mem_cons.mp hcerts
    obtain ⟨room, rfl⟩ : ∃ r, room = r + 1 := Nat.exists_eq_add_one.mpr (by simp at hroom; omega)
    have hlt : cert.length < 2 ^ 16 := hcert.2.trans_lt (by decide)
    have hne : (cert :: certs).flatMap certificateBytes ≠ [] := by
      simp [certificateBytes, hcert.1]
    obtain ⟨byte, rest, hbytes⟩ := List.exists_cons_of_ne_nil hne
    have hsplit : splitAtChecked 2 (byte :: rest) =
        some (toBeBytes (UInt16.ofNat cert.length), cert ++ certs.flatMap certificateBytes) := by
      rw [← hbytes, splitAtChecked_eq_some_iff, List.flatMap_cons, certificateBytes, List.append_assoc]
      exact ⟨length_toBeBytes _, rfl⟩
    have hlen : ofBeBytes? (toBeBytes (UInt16.ofNat cert.length)) = some (UInt16.ofNat cert.length) :=
      ofBeBytes?_eq_some_iff.mpr rfl
    have hitem : splitAtChecked (UInt16.ofNat cert.length).toNat (cert ++ certs.flatMap certificateBytes) =
        some (cert, certs.flatMap certificateBytes) := by
      rw [UInt16.toNat_ofNat_of_lt' hlt, splitAtChecked_eq_some_iff]
      exact ⟨rfl, rfl⟩
    have hbounded : bounded EvidenceTag.intermediates cert maxCertificate = .ok cert :=
      bounded_eq_ok_iff.mpr ⟨hcert, rfl⟩
    rw [hbytes, splitIntermediates, hsplit]
    simp only [Except.okOr_some, Except.ok_bind, hlen, hitem, hbounded]
    rw [ih (Nat.le_of_succ_le_succ hroom) hcerts, List.append_assoc, List.singleton_append]

/-- Evidence that can be written. -/
structure Evidence.Fits (e : Evidence) : Prop where
  ekPublic : Bounded maxPublic e.ekPublic
  ekCertificate : ∀ cert ∈ e.ekCertificate, Bounded maxCertificate cert
  few : e.intermediates.length ≤ maxIntermediates
  intermediates : ∀ cert ∈ e.intermediates, Bounded maxCertificate cert
  identityPublic : Bounded maxPublic e.identityPublic
  attest : Bounded maxAttest e.attest
  signature : Bounded maxSignature e.signature
  devicePublic : Bounded maxPublic e.devicePublic

/-- The tags and values of evidence. -/
def Evidence.contents (e : Evidence) : Contents :=
  [(EvidenceTag.ekPublic, e.ekPublic)] ++ optField EvidenceTag.ekCertificate e.ekCertificate ++
    optField EvidenceTag.intermediates (chainValue e.intermediates) ++
    [(EvidenceTag.identityPublic, e.identityPublic)] ++ [(EvidenceTag.attest, e.attest)] ++
    [(EvidenceTag.signature, e.signature)] ++ [(EvidenceTag.devicePublic, e.devicePublic)]

/-- Evidence is its records, if all of its parts fit. -/
theorem encodeEvidence_eq_ok_iff {e : Evidence} {bytes : List UInt8} :
    encodeEvidence e = .ok bytes ↔ e.Fits ∧ Encodes bytes e.contents := by
  rw [encodeEvidence, Except.bind_eq_ok_iff]
  simp only [TlvWriter.new_put_bind, TlvWriter.putMany_bind_eq_ok_iff, TlvWriter.putMany_put_bind,
    TlvWriter.putMany_putOpt_bind, TlvWriter.putMany_finish_eq_ok_iff, bounded_eq_ok_iff,
    boundedOpt_eq_ok_iff, encodeIntermediates_eq_ok_iff, Evidence.contents]
  constructor
  · rintro ⟨_, ⟨h1, rfl⟩, _, ⟨h2, rfl⟩, _, ⟨⟨h3, h3'⟩, rfl⟩, _, ⟨h4, rfl⟩, _, ⟨h5, rfl⟩, _, ⟨h6, rfl⟩, _,
      ⟨h7, rfl⟩, hbytes⟩
    exact ⟨⟨h1, h2, h3, h3', h4, h5, h6, h7⟩, hbytes⟩
  · rintro ⟨⟨h1, h2, h3, h3', h4, h5, h6, h7⟩, hbytes⟩
    exact ⟨_, ⟨h1, rfl⟩, _, ⟨h2, rfl⟩, _, ⟨⟨h3, h3'⟩, rfl⟩, _, ⟨h4, rfl⟩, _, ⟨h5, rfl⟩, _, ⟨h6, rfl⟩, _,
      ⟨h7, rfl⟩, hbytes⟩

/-- The tags of evidence. -/
def tags : List UInt16 := [1, 2, 3, 4, 5, 6, 7]

theorem recordStep_decodeStep : RecordStep tags decodeStep where
  span_free _ _ _ _ _ := rfl
  skips acc tag value span h := by
    unfold decodeStep
    split <;> first | rfl | simp_all [tags]

/-- The loop reads every record into its place. -/
theorem foldlM_contents {e : Evidence} (h : e.Fits) :
    e.contents.foldlM (readField decodeStep) {} = .ok ⟨some e.ekPublic, e.ekCertificate, e.intermediates,
      some e.identityPublic, some e.attest, some e.signature, some e.devicePublic⟩ := by
  have hbounded {tag : UInt16} {value : List UInt8} {limit : ℕ} (h : Bounded limit value) :
      bounded tag value limit = .ok value := bounded_eq_ok_iff.mpr ⟨h, rfl⟩
  have hchain (hne : e.intermediates ≠ []) :
      intermediatesField [] ⟨3, e.intermediates.flatMap certificateBytes, ⟨0, 0⟩⟩ = .ok e.intermediates := by
    have hvalue : e.intermediates.flatMap certificateBytes ≠ [] := by
      obtain ⟨cert, certs, hcerts⟩ := List.exists_cons_of_ne_nil hne
      rw [hcerts]
      simp [certificateBytes, (h.intermediates cert (hcerts ▸ List.mem_cons_self)).1]
    rw [intermediatesField, Except.refuseIf_of_not hvalue, Except.ok_bind]
    exact splitIntermediates_flatMap h.few h.intermediates
  obtain ⟨h1, h2, -, -, h4, h5, h6, h7⟩ := h
  obtain ⟨ekPublic, ekCertificate, intermediates, identityPublic, attest, signature, devicePublic⟩ := e
  simp only [Option.mem_def] at h1 h2 h4 h5 h6 h7 hchain
  -- without intermediates the field is left out
  by_cases hnil : intermediates = []
  · subst hnil
    cases ekCertificate
    all_goals
      simp_all [Evidence.contents, chainValue, readField, decodeStep, EvidenceTag.ekPublic,
        EvidenceTag.ekCertificate, EvidenceTag.intermediates, EvidenceTag.identityPublic,
        EvidenceTag.attest, EvidenceTag.signature, EvidenceTag.devicePublic]
  · cases ekCertificate
    all_goals
      simp_all [Evidence.contents, chainValue, readField, decodeStep, EvidenceTag.ekPublic,
        EvidenceTag.ekCertificate, EvidenceTag.intermediates, EvidenceTag.identityPublic,
        EvidenceTag.attest, EvidenceTag.signature, EvidenceTag.devicePublic]

theorem length_certificateBytes (cert : List UInt8) : (certificateBytes cert).length = 2 + cert.length := by
  rw [certificateBytes, List.length_append, length_toBeBytes]
  rfl

/-- The certificates of a chain have bounded lengths, and so does the chain. -/
theorem length_flatMap_certificateBytes_le {certs : List (List UInt8)}
    (h : ∀ cert ∈ certs, cert.length ≤ maxCertificate) :
    (certs.flatMap certificateBytes).length ≤ certs.length * 8194 := by
  induction certs with
  | nil => exact Nat.le_refl _
  | cons cert certs ih =>
    obtain ⟨hcert, hcerts⟩ := List.forall_mem_cons.mp h
    have := ih hcerts
    rw [List.flatMap_cons, List.length_append, length_certificateBytes, List.length_cons]
    unfold maxCertificate at hcert
    omega

/-- Evidence that can be written is no longer than a document. -/
theorem Evidence.encodedLength_contents_le {e : Evidence} (h : e.Fits) :
    encodedLength e.contents ≤ Activation.maxDocument := by
  have hcertificate : encodedLength (optField EvidenceTag.ekCertificate e.ekCertificate) ≤ 8198 := by
    cases hcert : e.ekCertificate with
    | none => exact Nat.zero_le _
    | some cert =>
      have hlen : cert.length ≤ 8192 := (h.ekCertificate cert hcert).2
      rw [optField_some, encodedLength_cons, encodedLength_nil, fieldPrefixLen]
      omega
  have hintermediates :
      encodedLength (optField EvidenceTag.intermediates (chainValue e.intermediates)) ≤ 16394 := by
    have hlen := length_flatMap_certificateBytes_le fun cert hcert ↦ (h.intermediates cert hcert).2
    have hfew : e.intermediates.length ≤ 2 := h.few
    rw [chainValue]
    split_ifs
    · exact Nat.zero_le _
    · rw [optField_some, encodedLength_cons, encodedLength_nil, fieldPrefixLen]
      omega
  have hpublic : e.ekPublic.length ≤ 1026 := h.ekPublic.2
  have hidentity : e.identityPublic.length ≤ 1026 := h.identityPublic.2
  have hattest : e.attest.length ≤ 1024 := h.attest.2
  have hsignature : e.signature.length ≤ 600 := h.signature.2
  have hdevice : e.devicePublic.length ≤ 1026 := h.devicePublic.2
  have hmax : Activation.maxDocument = 1048576 := rfl
  simp only [Evidence.contents, encodedLength_append, encodedLength_cons, encodedLength_nil, fieldPrefixLen]
  omega

/-- **Written evidence is read back.** -/
theorem decodeEvidence_encodeEvidence {e : Evidence} {bytes : List UInt8}
    (h : encodeEvidence e = .ok bytes) : decodeEvidence bytes = .ok e := by
  obtain ⟨hfits, henc⟩ := encodeEvidence_eq_ok_iff.mp h
  have hshort : ¬Activation.maxDocument < bytes.length :=
    not_lt.mpr (henc.length_eq.trans_le (Evidence.encodedLength_contents_le hfits))
  rw [decodeEvidence, Except.refuseIf_of_not hshort, Except.ok_bind, recordStep_decodeStep.foldFields_eq henc,
    foldlM_contents hfits]
  rfl

end OpenCrate.Protocol.Attestation
