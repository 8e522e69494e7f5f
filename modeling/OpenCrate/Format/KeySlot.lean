import OpenCrate.Crypto.Algorithms
import OpenCrate.Format.TlvCodec

/-!
# Key slots

The slots of a header, `KeySlot` of `oc-format`. A slot is read in two passes: the first collects its
fields and finds out whether this client can use it, the second checks the lengths. A slot the client
cannot use is kept as it is, so that another slot of the file may serve.

Writer and reader check a slot by the same rules, `KnownSlot.Fits`. A known slot is written exactly
if it fits (`encodeKnownSlot_eq_ok_iff`), what is written is read back (`decodeSlot_encode`), and what
is read fits and is not longer than the bytes it was read from (`KnownSlot.of_decodeSlot`).
-/

namespace OpenCrate.Format

open Crypto
open Except (refuseIf okOr)

/-! ### The data -/

/-- Purpose of a key slot. -/
inductive SlotKind where
  | server
  | recipientIdentity
  | recipientClaim
  | authorDevice
  deriving DecidableEq, Repr

namespace SlotKind

/-- The number of the kind. -/
def toU16 : SlotKind → UInt16
  | server => 1
  | recipientIdentity => 2
  | recipientClaim => 3
  | authorDevice => 4

/-- The kind of a number. -/
def fromU16 (v : UInt16) : Option SlotKind :=
  match v with
  | 1 => some server
  | 2 => some recipientIdentity
  | 3 => some recipientClaim
  | 4 => some authorDevice
  | _ => none

@[simp] theorem fromU16_toU16 (kind : SlotKind) : fromU16 kind.toU16 = some kind := by
  cases kind <;> rfl

theorem eq_toU16_of_fromU16 {v : UInt16} {kind : SlotKind} (h : fromU16 v = some kind) :
    v = kind.toU16 := by
  unfold fromU16 at h
  split at h <;> cases h <;> rfl

end SlotKind

/-- Slot whose kind this client recognizes. -/
structure KnownSlot where
  kind : SlotKind
  kem : KemAlg
  /-- Sender's ephemeral public key; its length depends on the version and the mechanism. -/
  enc : List UInt8
  nonce : List.Vector UInt8 24
  ct : List UInt8
  commitment : Digest
  /-- The public key to which the secret is sealed, without hashing. -/
  keyFpr : Option (List UInt8)
  claimCommit : Option Digest
  deriving DecidableEq

/-- Whether this slot kind seals a secret to someone's public key. -/
def KnownSlot.kindSeals : SlotKind → Bool
  | .server | .recipientIdentity | .authorDevice => true
  | .recipientClaim => false

/-- Key slot. An unknown one is retained as it is and ignored. -/
inductive KeySlot where
  | known (slot : KnownSlot)
  | unknown (kind : UInt16) (raw : List UInt8)
  deriving DecidableEq

namespace SlotTag

/-- Tag of the kind. -/
def kind : UInt16 := 1

/-- Tag of the mechanism. -/
def kem : UInt16 := 2

/-- Tag of the ephemeral key. -/
def enc : UInt16 := 3

/-- Tag of the sealed secret. -/
def ct : UInt16 := 4

/-- Tag of the slot commitment. -/
def commitment : UInt16 := 5

/-- Tag of the public key sealed to. -/
def keyFpr : UInt16 := 6

/-- Tag of the sealing nonce. -/
def nonce : UInt16 := 7

/-- Tag of the claim-code commitment. -/
def claimCommit : UInt16 := 8

end SlotTag

/-! ### Lengths -/

/-- First format version supporting hybrid slots. -/
def firstHybridVersion : UInt16 := 4

/-- First format version supporting the hardware hybrid. -/
def firstHardwareHybridVersion : UInt16 := 5

/-- Length of an X25519 public key. -/
def x25519PublicLen : ℕ := 32

/-- Length of an uncompressed P-256 point. -/
def p256PublicLen : ℕ := 65

/-- Length of an X-Wing ciphertext. -/
def xWingCiphertextLen : ℕ := 1120

/-- Length of an X-Wing public key. -/
def xWingPublicLen : ℕ := 1216

/-- Length of a ciphertext of the hardware hybrid. -/
def mlKemP256CiphertextLen : ℕ := 1153

/-- Length of a public key of the hardware hybrid. -/
def mlKemP256PublicLen : ℕ := 1249

/-- Encapsulation length defined for a version and a mechanism, if the version defines its shape. -/
def expectedEncLen (version : UInt16) : KemAlg → Option ℕ
  | .x25519HkdfSha256 => some x25519PublicLen
  | .p256HkdfSha256 => if 2 ≤ version then some p256PublicLen else none
  | .rsaOaepSha256 => none
  | .xWing => if firstHybridVersion ≤ version then some xWingCiphertextLen else none
  | .mlKem768P256 =>
    if firstHardwareHybridVersion ≤ version then some mlKemP256CiphertextLen else none

/-- Length of the public key sealed to: a table of its own. -/
def expectedKeyFprLen (version : UInt16) : KemAlg → Option ℕ
  | .x25519HkdfSha256 => some x25519PublicLen
  | .p256HkdfSha256 => if 2 ≤ version then some p256PublicLen else none
  | .rsaOaepSha256 => none
  | .xWing => if firstHybridVersion ≤ version then some xWingPublicLen else none
  | .mlKem768P256 => if firstHardwareHybridVersion ≤ version then some mlKemP256PublicLen else none

/-! ### Shape -/

/-- A slot that seals nothing uses one mechanism and zero values. -/
def checkClaimShape (kem : KemAlg) (enc nonce : List UInt8) : Except FormatError Unit := do
  refuseIf (kem ≠ .x25519HkdfSha256) (.badFieldLength SlotTag.kem kem.toU8.toNat)
  refuseIf (∃ byte ∈ enc, byte ≠ 0) (.badFieldLength SlotTag.enc enc.length)
  refuseIf (∃ byte ∈ nonce, byte ≠ 0) (.badFieldLength SlotTag.nonce nonce.length)

/-- Validate the field layout of a slot kind. -/
def checkSlotShape (kind : SlotKind) (kem : KemAlg) (hasClaimCommit : Bool) (ctLen : ℕ)
    (hasKeyFpr : Bool) (enc nonce : List UInt8) : Except FormatError Unit := do
  let seals := KnownSlot.kindSeals kind
  refuseIf (seals = hasClaimCommit) (.badFieldLength SlotTag.claimCommit hasClaimCommit.toNat)
  refuseIf (seals ≠ decide (0 < ctLen)) (.badFieldLength SlotTag.ct ctLen)
  refuseIf (seals = false ∧ hasKeyFpr = true) (.badFieldLength SlotTag.keyFpr hasKeyFpr.toNat)
  if seals then .ok () else checkClaimShape kem enc nonce

/-! ### Writing a slot -/

/-- The public key sealed to, if there is one, has the length of its mechanism. -/
def checkKeyFprLen (version : UInt16) (kem : KemAlg) (keyFpr : Option (List UInt8)) :
    Except FormatError Unit :=
  match keyFpr with
  | none => .ok ()
  | some fpr => do
    let fprLen ← okOr (expectedKeyFprLen version kem) (.badFieldLength SlotTag.keyFpr fpr.length)
    refuseIf (fpr.length ≠ fprLen) (.badFieldLength SlotTag.keyFpr fpr.length)

/-- Write a slot. The lengths and the shape are checked as on reading. -/
def encodeKnownSlot (version : UInt16) (slot : KnownSlot) : Except FormatError (List UInt8) := do
  let encLen ← okOr (expectedEncLen version slot.kem) (.badFieldLength SlotTag.enc slot.enc.length)
  refuseIf (slot.enc.length ≠ encLen) (.badFieldLength SlotTag.enc slot.enc.length)
  checkKeyFprLen version slot.kem slot.keyFpr
  checkSlotShape slot.kind slot.kem slot.claimCommit.isSome slot.ct.length slot.keyFpr.isSome
    slot.enc slot.nonce.toList
  let w ← TlvWriter.new.put SlotTag.kind (toLeBytes slot.kind.toU16)
  let w ← w.put SlotTag.kem [slot.kem.toU8]
  let w ← w.put SlotTag.enc slot.enc
  let w ← w.put SlotTag.ct slot.ct
  let w ← w.put SlotTag.commitment slot.commitment.toList
  let w ← w.putOpt SlotTag.keyFpr slot.keyFpr
  let w ← w.put SlotTag.nonce slot.nonce.toList
  let w ← w.putOpt SlotTag.claimCommit (slot.claimCommit.map List.Vector.toList)
  .ok w.finish

/-! ### Reading a slot -/

/-- What the first pass has collected. -/
structure SlotReading where
  kindRaw : Option UInt16 := none
  kem : Option UInt8 := none
  enc : Option (List UInt8) := none
  ct : Option (List UInt8) := none
  commitment : Option (List UInt8) := none
  keyFpr : Option (List UInt8) := none
  nonce : Option (List UInt8) := none
  claimCommit : Option (List UInt8) := none
  /-- A critical field was met that this build does not know. -/
  unusable : Bool := false

/-- The first pass, by the tags of `SlotTag`. Only the kind and the mechanism are checked for their
length: they decide what becomes of the slot. -/
def decodeSlotStep (acc : SlotReading) (field : Field) : Except FormatError SlotReading :=
  match field.tag with
  | 1 => do
    let kind ← field.u16
    .ok { acc with kindRaw := some kind }
  | 2 => do
    let kem ← field.u8
    .ok { acc with kem := some kem }
  | 3 => .ok { acc with enc := some field.value }
  | 4 => .ok { acc with ct := some field.value }
  | 5 => .ok { acc with commitment := some field.value }
  | 6 => .ok { acc with keyFpr := some field.value }
  | 7 => .ok { acc with nonce := some field.value }
  | 8 => .ok { acc with claimCommit := some field.value }
  | other =>
    match unknownTagAction other with
    | .refuse => .ok { acc with unusable := true }
    | .ignore => .ok acc

/-- Required slot field: present, or an error naming its tag. -/
def exactField (tag : UInt16) (value : Option (List UInt8)) : Except FormatError (List UInt8) :=
  okOr value (.missingField tag)

/-- Bytes as an array of an exact length. Short values are not padded, long ones not truncated. -/
def toArray (n : ℕ) (tag : UInt16) (value : List UInt8) : Except FormatError (List.Vector UInt8 n) :=
  if h : value.length = n then .ok ⟨value, h⟩ else .error (.badFieldLength tag value.length)

/-- An optional claim-code commitment. -/
def toClaimCommit (value : Option (List UInt8)) : Except FormatError (Option Digest) :=
  match value with
  | some value => (toArray 32 SlotTag.claimCommit value).map some
  | none => .ok none

/-- The end of the second pass: the shape, and the fields of a fixed length. -/
def finishSlot (kind : SlotKind) (kem : KemAlg) (enc ct nonce : List UInt8) (acc : SlotReading) :
    Except FormatError KnownSlot := do
  checkSlotShape kind kem acc.claimCommit.isSome ct.length acc.keyFpr.isSome enc nonce
  let nonce ← toArray 24 SlotTag.nonce nonce
  let commitmentBytes ← exactField SlotTag.commitment acc.commitment
  let commitment ← toArray 32 SlotTag.commitment commitmentBytes
  let claimCommit ← toClaimCommit acc.claimCommit
  .ok ⟨kind, kem, enc, nonce, ct, commitment, acc.keyFpr, claimCommit⟩

/-- The second pass: the slot is ours, lengths are checked exactly. -/
def decodeUsableSlot (version : UInt16) (kind : SlotKind) (kem : KemAlg) (encLen : ℕ)
    (unknown : KeySlot) (acc : SlotReading) : Except FormatError KeySlot := do
  let ct ← okOr acc.ct (.missingField SlotTag.ct)
  let enc ← exactField SlotTag.enc acc.enc
  refuseIf (enc.length ≠ encLen) (.badFieldLength SlotTag.enc enc.length)
  let nonce ← exactField SlotTag.nonce acc.nonce
  match acc.keyFpr with
  | none => (finishSlot kind kem enc ct nonce acc).map .known
  | some value =>
    match expectedKeyFprLen version kem with
    | none => .ok unknown
    | some fprLen => do
      refuseIf (value.length ≠ fprLen) (.badFieldLength SlotTag.keyFpr value.length)
      (finishSlot kind kem enc ct nonce acc).map .known

/-- Read a slot. -/
def decodeSlot (version : UInt16) (bytes : List UInt8) : Except FormatError KeySlot := do
  let acc ← TlvReader.foldFields decodeSlotStep (TlvReader.new bytes) {}
  let kindRaw ← okOr acc.kindRaw (.missingField SlotTag.kind)
  -- whatever this client cannot use is kept as it is: a slot is never dropped
  let unknown := KeySlot.unknown kindRaw bytes
  if acc.unusable then .ok unknown
  else
    match SlotKind.fromU16 kindRaw with
    | none => .ok unknown
    | some kind => do
      let kemRaw ← okOr acc.kem (.missingField SlotTag.kem)
      match KemAlg.fromU8 kemRaw with
      | .error _ => .ok unknown
      | .ok kem =>
        match expectedEncLen version kem with
        | none => .ok unknown
        | some encLen => decodeUsableSlot version kind kem encLen unknown acc

/-! ### The list of slots -/

/-- Upper bound on the number of key slots. -/
def maxKeySlots : ℕ := 1024

/-- Tag of the key slots in the header. -/
def keySlotsTag : UInt16 := 10

/-- The bytes of a slot: an unknown one is written as it was read. -/
def encodeSlot (version : UInt16) : KeySlot → Except FormatError (List UInt8)
  | .known slot => encodeKnownSlot version slot
  | .unknown _ raw => .ok raw

/-- Slots are numbered by position, not kind. -/
def encodeSlots (version : UInt16) (slots : List KeySlot) : Except FormatError (List UInt8) :=
  TlvWriter.writeEach (fun index slot ↦ do
    let tag ← indexTag index
    let body ← encodeSlot version slot
    .ok (tag, body)) slots

/-- Read the slots, no more than allowed. -/
def decodeSlots (version : UInt16) (bytes : List UInt8) : Except FormatError (List KeySlot) :=
  TlvReader.collect maxKeySlots (.badFieldLength keySlotsTag) (decodeSlot version) bytes []

/-! ### The rules of a slot -/

namespace KnownSlot

/-- The rules of writer and reader: both lengths are those of the mechanism in this version, and the
fields are those of the kind. -/
structure Fits (version : UInt16) (slot : KnownSlot) : Prop where
  encLen : expectedEncLen version slot.kem = some slot.enc.length
  fprLen : ∀ fpr, slot.keyFpr = some fpr →
    expectedKeyFprLen version slot.kem = some fpr.length
  shape : checkSlotShape slot.kind slot.kem slot.claimCommit.isSome slot.ct.length
    slot.keyFpr.isSome slot.enc slot.nonce.toList = .ok ()

/-- The tags and values of a slot. -/
def contents (slot : KnownSlot) : Contents :=
  [(1, toLeBytes slot.kind.toU16), (2, [slot.kem.toU8]), (3, slot.enc), (4, slot.ct),
    (5, slot.commitment.toList)] ++ optField 6 slot.keyFpr ++ [(7, slot.nonce.toList)] ++
    optField 8 (slot.claimCommit.map List.Vector.toList)

theorem contents_increasing (slot : KnownSlot) :
    (slot.contents.map Prod.fst).Pairwise (· < ·) := by
  have htags : [(1 : UInt16), 2, 3, 4, 5, 6, 7, 8].Pairwise (· < ·) := by decide
  refine htags.sublist ?_
  simp only [contents, List.map_append]
  exact (((List.Sublist.refl [1, 2, 3, 4, 5]).append (optField_tags_sublist 6 _)).append
    (List.Sublist.refl [7])).append (optField_tags_sublist 8 _)

end KnownSlot

/-- The length of a fingerprint is fixed by the version and the mechanism. -/
theorem checkKeyFprLen_eq_ok_iff {version : UInt16} {kem : KemAlg} {keyFpr : Option (List UInt8)} :
    checkKeyFprLen version kem keyFpr = .ok () ↔
      ∀ fpr, keyFpr = some fpr → expectedKeyFprLen version kem = some fpr.length := by
  rcases keyFpr with - | fpr
  · exact ⟨fun _ _ ↦ nofun, fun _ ↦ rfl⟩
  · simp only [checkKeyFprLen, Except.bind_eq_ok_iff, Except.okOr_eq_ok_iff,
      Except.refuseIf_eq_ok_iff, Option.some.injEq, forall_eq']
    constructor
    · rintro ⟨fprLen, hlen, hne⟩
      rw [hlen, not_not.mp hne]
    · intro h
      exact ⟨_, h, not_not.mpr rfl⟩

/-- **What the slot writer does.** A slot is written exactly if it fits. -/
theorem encodeKnownSlot_eq_ok_iff {version : UInt16} {slot : KnownSlot} {bytes : List UInt8} :
    encodeKnownSlot version slot = .ok bytes ↔
      slot.Fits version ∧ Encodes bytes slot.contents := by
  have hwrite : encodeKnownSlot version slot = (do
      let encLen ← okOr (expectedEncLen version slot.kem)
        (.badFieldLength SlotTag.enc slot.enc.length)
      refuseIf (slot.enc.length ≠ encLen) (.badFieldLength SlotTag.enc slot.enc.length)
      checkKeyFprLen version slot.kem slot.keyFpr
      checkSlotShape slot.kind slot.kem slot.claimCommit.isSome slot.ct.length slot.keyFpr.isSome
        slot.enc slot.nonce.toList
      TlvWriter.writeAll slot.contents) := by
    simp only [encodeKnownSlot, KnownSlot.contents, TlvWriter.writeAll, TlvWriter.putMany_append,
      TlvWriter.putMany_cons, TlvWriter.putMany_nil, TlvWriter.putOpt_eq_putMany, bind_assoc,
      Except.ok_bind]
    rfl
  rw [hwrite, Except.bind_eq_ok_iff]
  simp only [Except.check_bind_eq_ok_iff, Except.okOr_eq_ok_iff, Except.refuseIf_eq_ok_iff,
    checkKeyFprLen_eq_ok_iff, TlvWriter.writeAll_eq_ok_iff]
  constructor
  · rintro ⟨encLen, henc, hne, hfpr, hshape, h⟩
    exact ⟨⟨by rw [henc, not_not.mp hne], hfpr, hshape⟩, h⟩
  · rintro ⟨⟨henc, hfpr, hshape⟩, h⟩
    exact ⟨_, henc, not_not.mpr rfl, hfpr, hshape, h⟩

/-! ### Reading a known slot -/

theorem toArray_eq_ok_iff {n : ℕ} {tag : UInt16} {value : List UInt8} {v : List.Vector UInt8 n} :
    toArray n tag value = .ok v ↔ value = v.toList := by
  constructor
  · intro h
    unfold toArray at h
    split_ifs at h
    exact Except.ok.inj h ▸ rfl
  · rintro rfl
    exact dif_pos v.toList_length

theorem toClaimCommit_eq_ok_iff {value : Option (List UInt8)} {claim : Option Digest} :
    toClaimCommit value = .ok claim ↔ value = claim.map List.Vector.toList := by
  rcases value with - | value
  · rcases claim with - | claim <;> simp [toClaimCommit]
  · simp only [toClaimCommit, Except.map_eq_ok_iff, toArray_eq_ok_iff]
    rcases claim with - | claim <;> simp

/-- The first pass has collected the fields of a slot. -/
structure SlotReading.Holds (acc : SlotReading) (slot : KnownSlot) : Prop where
  enc : acc.enc = some slot.enc
  ct : acc.ct = some slot.ct
  commitment : acc.commitment = some slot.commitment.toList
  keyFpr : acc.keyFpr = slot.keyFpr
  nonce : acc.nonce = some slot.nonce.toList
  claimCommit : acc.claimCommit = slot.claimCommit.map List.Vector.toList

theorem finishSlot_eq_ok_iff {kind : SlotKind} {kem : KemAlg} {enc ct nonce : List UInt8}
    {acc : SlotReading} (henc : acc.enc = some enc) (hct : acc.ct = some ct)
    (hnonce : acc.nonce = some nonce) {slot : KnownSlot} :
    finishSlot kind kem enc ct nonce acc = .ok slot ↔
      kind = slot.kind ∧ kem = slot.kem ∧ acc.Holds slot ∧
        checkSlotShape slot.kind slot.kem slot.claimCommit.isSome slot.ct.length
          slot.keyFpr.isSome slot.enc slot.nonce.toList = .ok () := by
  constructor
  · intro h
    obtain ⟨hshape, h⟩ := Except.check_bind_eq_ok_iff.mp h
    obtain ⟨nonceArray, hnonceArray, h⟩ := Except.bind_eq_ok_iff.mp h
    obtain ⟨bytes, hbytes, h⟩ := Except.bind_eq_ok_iff.mp h
    obtain ⟨commitment, hcommitment, h⟩ := Except.bind_eq_ok_iff.mp h
    obtain ⟨claim, hclaim, h⟩ := Except.bind_eq_ok_iff.mp h
    rw [toArray_eq_ok_iff] at hnonceArray hcommitment
    rw [toClaimCommit_eq_ok_iff] at hclaim
    rw [exactField, Except.okOr_eq_ok_iff] at hbytes
    rw [hclaim, Option.isSome_map, hnonceArray] at hshape
    obtain rfl := Except.ok.inj h
    exact ⟨rfl, rfl, ⟨henc, hct, hbytes.trans (by rw [hcommitment]), rfl,
      hnonce.trans (by rw [hnonceArray]), hclaim⟩, hshape⟩
  · rintro ⟨rfl, rfl, hacc, hshape⟩
    obtain rfl : enc = slot.enc := Option.some_inj.mp (henc.symm.trans hacc.enc)
    obtain rfl : ct = slot.ct := Option.some_inj.mp (hct.symm.trans hacc.ct)
    obtain rfl : nonce = slot.nonce.toList := Option.some_inj.mp (hnonce.symm.trans hacc.nonce)
    simp only [finishSlot, hacc.keyFpr, hacc.claimCommit, hacc.commitment, Option.isSome_map,
      hshape, Except.ok_bind, toArray_eq_ok_iff.mpr rfl, exactField, Except.okOr_some,
      toClaimCommit_eq_ok_iff.mpr rfl]

/-- What the second pass accepts. -/
theorem decodeUsableSlot_eq_known_iff {version : UInt16} {kind : SlotKind} {kem : KemAlg}
    {encLen : ℕ} {unknown : KeySlot} (hunknown : ∀ slot, unknown ≠ .known slot) {acc : SlotReading}
    (hlen : expectedEncLen version kem = some encLen) {slot : KnownSlot} :
    decodeUsableSlot version kind kem encLen unknown acc = .ok (.known slot) ↔
      kind = slot.kind ∧ kem = slot.kem ∧ acc.Holds slot ∧ slot.Fits version := by
  constructor
  · intro h
    obtain ⟨ct, hct, h⟩ := Except.bind_eq_ok_iff.mp h
    obtain ⟨enc, henc, h⟩ := Except.bind_eq_ok_iff.mp h
    obtain ⟨hencLen, h⟩ := Except.check_bind_eq_ok_iff.mp h
    obtain ⟨nonce, hnonce, h⟩ := Except.bind_eq_ok_iff.mp h
    rw [exactField, Except.okOr_eq_ok_iff] at henc hnonce
    rw [Except.okOr_eq_ok_iff] at hct
    rw [Except.refuseIf_eq_ok_iff, not_not] at hencLen
    -- with or without a key to seal to, the end of the pass is the same
    have hfinish : finishSlot kind kem enc ct nonce acc = .ok slot ∧
        ∀ fpr, acc.keyFpr = some fpr → expectedKeyFprLen version kem = some fpr.length := by
      rcases hfpr : acc.keyFpr with - | fpr
      · rw [hfpr] at h
        obtain ⟨slot', hslot, heq⟩ := Except.map_eq_ok_iff.mp h
        obtain rfl := KeySlot.known.inj heq
        exact ⟨hslot, fun _ ↦ nofun⟩
      · rw [hfpr] at h
        rcases hlen' : expectedKeyFprLen version kem with - | fprLen
        · simp only [hlen'] at h
          exact absurd (Except.ok.inj h) (hunknown slot)
        · simp only [hlen'] at h
          obtain ⟨hfprLen, h⟩ := Except.check_bind_eq_ok_iff.mp h
          rw [Except.refuseIf_eq_ok_iff, not_not] at hfprLen
          obtain ⟨slot', hslot, heq⟩ := Except.map_eq_ok_iff.mp h
          obtain rfl := KeySlot.known.inj heq
          exact ⟨hslot, fun fpr' heq ↦ by rw [← Option.some_inj.mp heq, hfprLen]⟩
    obtain ⟨hslot, hfpr⟩ := hfinish
    obtain ⟨rfl, rfl, hacc, hshape⟩ := (finishSlot_eq_ok_iff henc hct hnonce).mp hslot
    refine ⟨rfl, rfl, hacc, ?_, fun fpr h ↦ hfpr fpr (hacc.keyFpr.trans h), hshape⟩
    rw [hlen, ← hencLen, Option.some_inj.mp (henc.symm.trans hacc.enc)]
  · rintro ⟨rfl, rfl, hacc, hfits⟩
    have hfinish := (finishSlot_eq_ok_iff hacc.enc hacc.ct hacc.nonce).mpr
      ⟨rfl, rfl, hacc, hfits.shape⟩
    have hlen' : slot.enc.length = encLen := Option.some_inj.mp (hfits.encLen.symm.trans hlen)
    rw [decodeUsableSlot, hacc.ct, hacc.enc, hacc.nonce, hacc.keyFpr]
    simp only [exactField, Except.okOr_some, Except.ok_bind, refuseIf, hlen', ne_eq, not_true,
      if_false]
    rcases hfpr : slot.keyFpr with - | fpr
    · simp only [hfinish, Except.map]
    · simp only [hfits.fprLen fpr hfpr, not_true, if_false, Except.ok_bind, hfinish, Except.map]

/-- **What the slot reader accepts.** -/
theorem decodeSlot_eq_known_iff {version : UInt16} {bytes : List UInt8} {slot : KnownSlot} :
    decodeSlot version bytes = .ok (.known slot) ↔ slot.Fits version ∧
      ∃ acc, TlvReader.foldFields decodeSlotStep (TlvReader.new bytes) {} = .ok acc ∧
        acc.unusable = false ∧ acc.kindRaw = some slot.kind.toU16 ∧
        acc.kem = some slot.kem.toU8 ∧ acc.Holds slot := by
  constructor
  · intro h
    obtain ⟨acc, hfold, h⟩ := Except.bind_eq_ok_iff.mp h
    obtain ⟨kindRaw, hkind, h⟩ := Except.bind_eq_ok_iff.mp h
    rw [Except.okOr_eq_ok_iff] at hkind
    split at h
    · exact nomatch Except.ok.inj h
    · next hunusable =>
      split at h
      · exact nomatch Except.ok.inj h
      · next kind hfrom =>
        obtain ⟨kemRaw, hkem, h⟩ := Except.bind_eq_ok_iff.mp h
        rw [Except.okOr_eq_ok_iff] at hkem
        split at h
        · exact nomatch Except.ok.inj h
        · next kem hfromKem =>
          split at h
          · exact nomatch Except.ok.inj h
          · next encLen hlen =>
            have hne : ∀ slot, KeySlot.unknown kindRaw bytes ≠ .known slot := fun _ ↦ nofun
            obtain ⟨rfl, rfl, hacc, hfits⟩ := (decodeUsableSlot_eq_known_iff hne hlen).mp h
            refine ⟨hfits, acc, hfold, eq_false_of_ne_true hunusable, ?_, ?_, hacc⟩
            · rw [hkind, SlotKind.eq_toU16_of_fromU16 hfrom]
            · rw [hkem, KemAlg.eq_toU8_of_fromU8 hfromKem]
  · rintro ⟨hfits, acc, hfold, hunusable, hkind, hkem, hacc⟩
    rw [decodeSlot, hfold]
    simp only [Except.ok_bind, hkind, hkem, Except.okOr_some, hunusable, Bool.false_eq_true,
      if_false, SlotKind.fromU16_toU16, KemAlg.fromU8_toU8, hfits.encLen]
    refine (decodeUsableSlot_eq_known_iff ?_ hfits.encLen).mpr ⟨rfl, rfl, hacc, hfits⟩
    exact fun _ ↦ nofun

/-- A written slot is read back. -/
theorem decodeSlot_encode {version : UInt16} {slot : KnownSlot} {bytes : List UInt8}
    (h : slot.Fits version) (henc : Encodes bytes slot.contents) :
    decodeSlot version bytes = .ok (.known slot) := by
  refine decodeSlot_eq_known_iff.mpr ⟨h, ⟨some slot.kind.toU16, some slot.kem.toU8, some slot.enc,
    some slot.ct, some slot.commitment.toList, slot.keyFpr, some slot.nonce.toList,
    slot.claimCommit.map List.Vector.toList, false⟩, ?_, rfl, rfl, rfl, rfl, rfl, rfl, rfl, rfl, rfl⟩
  rw [henc.foldFields]
  rcases slot with ⟨_, _, _, _, _, _, - | _, - | _⟩ <;>
    simp [KnownSlot.contents, fieldsOf, decodeSlotStep]

/-! ### Lengths of what is read -/

/-- What the first pass has collected stands in the slot. -/
structure SlotReading.From (l : Contents) (acc : SlotReading) : Prop where
  kindRaw : optField 1 (acc.kindRaw.map toLeBytes) ⊆ l
  kem : optField 2 (acc.kem.map fun b ↦ [b]) ⊆ l
  enc : optField 3 acc.enc ⊆ l
  ct : optField 4 acc.ct ⊆ l
  commitment : optField 5 acc.commitment ⊆ l
  keyFpr : optField 6 acc.keyFpr ⊆ l
  nonce : optField 7 acc.nonce ⊆ l
  claimCommit : optField 8 acc.claimCommit ⊆ l

/-- What is read from a slot comes from its fields. -/
theorem SlotReading.From.step {l : Contents} {acc acc' : SlotReading} {field : Field}
    (hmem : (field.tag, field.value) ∈ l) (hacc : acc.From l)
    (h : decodeSlotStep acc field = .ok acc') : acc'.From l := by
  have hone : ∀ {tag value}, field.tag = tag → field.value = value →
      optField tag (some value) ⊆ l := by
    rintro _ _ rfl rfl
    exact List.cons_subset.mpr ⟨hmem, List.nil_subset l⟩
  unfold decodeSlotStep at h
  split at h
  · next htag =>
    obtain ⟨kind, hkind, h⟩ := Except.bind_eq_ok_iff.mp h
    obtain rfl := Except.ok.inj h
    exact { hacc with kindRaw := hone htag (Field.le_eq_ok_iff.mp hkind) }
  · next htag =>
    obtain ⟨kem, hkem, h⟩ := Except.bind_eq_ok_iff.mp h
    obtain rfl := Except.ok.inj h
    exact { hacc with kem := hone htag (Field.u8_eq_ok_iff.mp hkem) }
  · next htag => exact Except.ok.inj h ▸ { hacc with enc := hone htag rfl }
  · next htag => exact Except.ok.inj h ▸ { hacc with ct := hone htag rfl }
  · next htag => exact Except.ok.inj h ▸ { hacc with commitment := hone htag rfl }
  · next htag => exact Except.ok.inj h ▸ { hacc with keyFpr := hone htag rfl }
  · next htag => exact Except.ok.inj h ▸ { hacc with nonce := hone htag rfl }
  · next htag => exact Except.ok.inj h ▸ { hacc with claimCommit := hone htag rfl }
  · split at h
    · exact Except.ok.inj h ▸ { hacc with }
    · exact Except.ok.inj h ▸ hacc

/-- A known slot fits, and it is not longer than what it was read from. -/
theorem KnownSlot.of_decodeSlot {version : UInt16} {bytes : List UInt8} {slot : KnownSlot}
    (h : decodeSlot version bytes = .ok (.known slot)) :
    slot.Fits version ∧ encodedLength slot.contents ≤ bytes.length := by
  obtain ⟨hfits, acc, hfold, -, hkind, hkem, hacc⟩ := decodeSlot_eq_known_iff.mp h
  obtain ⟨l, henc, hfold⟩ := exists_encodes_of_foldFields hfold
  have hfrom : acc.From l := Except.foldlM_invariant hfold (by constructor <;> exact List.nil_subset l)
    fun f hf _ _ hacc hstep ↦ hacc.step (mem_of_mem_fieldsOf hf) hstep
  have hsub : slot.contents ⊆ l := by
    have hcontents : slot.contents = optField 1 (acc.kindRaw.map toLeBytes) ++
        (optField 2 (acc.kem.map fun b ↦ [b]) ++ (optField 3 acc.enc ++ (optField 4 acc.ct ++
          (optField 5 acc.commitment ++ (optField 6 acc.keyFpr ++ (optField 7 acc.nonce ++
            optField 8 acc.claimCommit)))))) := by
      simp [KnownSlot.contents, hkind, hkem, hacc.enc, hacc.ct, hacc.commitment, hacc.keyFpr,
        hacc.nonce, hacc.claimCommit]
    simp only [hcontents, List.append_subset]
    exact ⟨hfrom.kindRaw, hfrom.kem, hfrom.enc, hfrom.ct, hfrom.commitment, hfrom.keyFpr,
      hfrom.nonce, hfrom.claimCommit⟩
  refine ⟨hfits, ?_⟩
  rw [henc.length_eq]
  exact encodedLength_le_of_subset (List.Nodup.of_map _ (slot.contents_increasing.imp ne_of_lt)) hsub

theorem decodeUsableSlot_cases {version : UInt16} {kind : SlotKind} {kem : KemAlg} {encLen : ℕ}
    {unknown slot : KeySlot} {acc : SlotReading}
    (h : decodeUsableSlot version kind kem encLen unknown acc = .ok slot) :
    slot = unknown ∨ ∃ known, slot = .known known := by
  obtain ⟨ct, -, h⟩ := Except.bind_eq_ok_iff.mp h
  obtain ⟨enc, -, h⟩ := Except.bind_eq_ok_iff.mp h
  obtain ⟨-, h⟩ := Except.check_bind_eq_ok_iff.mp h
  obtain ⟨nonce, -, h⟩ := Except.bind_eq_ok_iff.mp h
  split at h
  · obtain ⟨known, -, rfl⟩ := Except.map_eq_ok_iff.mp h
    exact Or.inr ⟨known, rfl⟩
  · split at h
    · exact Or.inl (Except.ok.inj h).symm
    · obtain ⟨-, h⟩ := Except.check_bind_eq_ok_iff.mp h
      obtain ⟨known, -, rfl⟩ := Except.map_eq_ok_iff.mp h
      exact Or.inr ⟨known, rfl⟩

/-- A slot that is kept as it is holds the bytes it was read from. -/
theorem raw_of_decodeSlot {version kind : UInt16} {bytes raw : List UInt8}
    (h : decodeSlot version bytes = .ok (.unknown kind raw)) : raw = bytes := by
  obtain ⟨acc, -, h⟩ := Except.bind_eq_ok_iff.mp h
  obtain ⟨kindRaw, -, h⟩ := Except.bind_eq_ok_iff.mp h
  have hraw : ∀ {k}, (.ok (.unknown k bytes) : Except FormatError KeySlot) =
      .ok (.unknown kind raw) → raw = bytes := fun h ↦ (KeySlot.unknown.inj (Except.ok.inj h)).2.symm
  split at h
  · exact hraw h
  · split at h
    · exact hraw h
    · obtain ⟨kemRaw, -, h⟩ := Except.bind_eq_ok_iff.mp h
      split at h
      · exact hraw h
      · split at h
        · exact hraw h
        · rcases decodeUsableSlot_cases h with heq | ⟨known, heq⟩
          · exact hraw (congrArg Except.ok heq.symm)
          · exact nomatch heq

/-! ### Lists of slots -/

namespace KeySlot

/-- Nothing is said of a known slot; an unknown one is what its bytes are read as. -/
def Readable (version : UInt16) : KeySlot → Prop
  | known _ => True
  | unknown kind raw => decodeSlot version raw = .ok (unknown kind raw)

/-- A slot that is written is read back. -/
theorem decodeSlot_of_encodeSlot {version : UInt16} {slot : KeySlot} {body : List UInt8}
    (hslot : slot.Readable version) (h : encodeSlot version slot = .ok body) :
    decodeSlot version body = .ok slot := by
  cases slot with
  | known slot =>
    obtain ⟨hfits, henc⟩ := encodeKnownSlot_eq_ok_iff.mp h
    exact decodeSlot_encode hfits henc
  | unknown kind raw =>
    obtain rfl := Except.ok.inj h
    exact hslot

/-- What is read can be written again, and is not longer. -/
theorem of_decodeSlot {version : UInt16} {slot : KeySlot} {bytes : List UInt8}
    (hbytes : bytes.length < 2 ^ 32) (h : decodeSlot version bytes = .ok slot) :
    slot.Readable version ∧
      ∃ body, encodeSlot version slot = .ok body ∧ body.length ≤ bytes.length := by
  cases slot with
  | known slot =>
    obtain ⟨hfits, hlen⟩ := KnownSlot.of_decodeSlot h
    obtain ⟨body, -, henc, hbody⟩ := TlvWriter.exists_writeAll slot.contents_increasing
      fun p hp ↦ ((length_le_encodedLength hp).trans hlen).trans_lt hbytes
    exact ⟨trivial, body, encodeKnownSlot_eq_ok_iff.mpr ⟨hfits, henc⟩, hbody ▸ hlen⟩
  | unknown kind raw =>
    obtain rfl := raw_of_decodeSlot h
    exact ⟨h, raw, rfl, Nat.le_refl _⟩

end KeySlot

/-- The slots are numbered in their order. -/
theorem encodeSlots_eq_ok_iff {version : UInt16} {slots : List KeySlot} {bytes : List UInt8} :
    encodeSlots version slots = .ok bytes ↔
      slots.length ≤ 2 ^ 16 ∧ ∃ bodies,
        List.Forall₂ (fun slot body ↦ encodeSlot version slot = .ok body) slots bodies ∧
          Encodes bytes (numbered 0 bodies) := by
  refine TlvWriter.writeEach_eq_ok_iff fun n slot tag body ↦ ?_
  simp only [Except.bind_eq_ok_iff, indexTag_eq_ok_iff, Except.ok.injEq, Prod.mk.injEq]
  constructor
  · rintro ⟨_, ⟨hn, rfl⟩, _, hbody, rfl, rfl⟩
    exact ⟨hn, rfl, hbody⟩
  · rintro ⟨hn, rfl, hbody⟩
    exact ⟨_, ⟨hn, rfl⟩, _, hbody, rfl, rfl⟩

/-- **Slots are read back as they were written.** -/
theorem decodeSlots_encodeSlots {version : UInt16} {slots : List KeySlot} {bytes : List UInt8}
    (hslots : ∀ slot ∈ slots, slot.Readable version) (hlen : slots.length ≤ maxKeySlots)
    (h : encodeSlots version slots = .ok bytes) : decodeSlots version bytes = .ok slots := by
  obtain ⟨-, bodies, hbodies, henc⟩ := encodeSlots_eq_ok_iff.mp h
  have hread : List.Forall₂ (fun body slot ↦ decodeSlot version body = .ok slot) bodies slots :=
    (((List.forall₂_and_left _ _).mpr ⟨hslots, hbodies⟩).imp fun _ _ h ↦
      KeySlot.decodeSlot_of_encodeSlot h.1 h.2).flip
  exact TlvReader.collect_numbered henc hread hlen

/-- The slots of a list that was read, each with the bytes that are written for it. -/
theorem exists_bodies {version : UInt16} {l : Contents} {slots : List KeySlot}
    (hfits : ∀ p ∈ l, p.2.length < 2 ^ 32)
    (h : List.Forall₂ (fun p slot ↦ decodeSlot version p.2 = .ok slot) l slots) :
    (∀ slot ∈ slots, slot.Readable version) ∧
      ∃ bodies, List.Forall₂ (fun slot body ↦ encodeSlot version slot = .ok body) slots bodies ∧
        (∀ body ∈ bodies, body.length < 2 ^ 32) ∧
        ∀ n, encodedLength (numbered n bodies) ≤ encodedLength l := by
  -- by induction on the slots; a slot is written in no more bytes than it was read from
  induction h with
  | nil => exact ⟨by simp, [], .nil, by simp, fun _ ↦ Nat.le_refl _⟩
  | @cons p slot l slots hslot _ ih =>
    obtain ⟨hreadable, bodies, hbodies, hshort, hle⟩ :=
      ih fun q hq ↦ hfits q (List.mem_cons_of_mem p hq)
    have hp := hfits p List.mem_cons_self
    obtain ⟨hone, body, hbody, hlen⟩ := KeySlot.of_decodeSlot hp hslot
    refine ⟨List.forall_mem_cons.mpr ⟨hone, hreadable⟩, body :: bodies, .cons hbody hbodies, ?_,
      fun n ↦ ?_⟩
    · exact List.forall_mem_cons.mpr ⟨hlen.trans_lt hp, hshort⟩
    · have := hle (n + 1)
      rw [numbered, encodedLength_cons, encodedLength_cons]
      omega

/-- **Slots that were read can be written again**, and are not longer. -/
theorem of_decodeSlots {version : UInt16} {slots : List KeySlot} {bytes : List UInt8}
    (h : decodeSlots version bytes = .ok slots) :
    slots.length ≤ maxKeySlots ∧ (∀ slot ∈ slots, slot.Readable version) ∧
      ∃ bytes', encodeSlots version slots = .ok bytes' ∧ bytes'.length ≤ bytes.length := by
  obtain ⟨l, more, henc, hread, hmore, hlen⟩ := TlvReader.collect_eq_ok_iff.mp h
  obtain rfl : slots = more := hmore
  have hmax : slots.length ≤ maxKeySlots := by
    rcases hlen with rfl | hlen
    · exact Nat.zero_le _
    · exact hlen
  obtain ⟨hreadable, bodies, hbodies, hshort, hle⟩ :=
    exists_bodies henc.fits hread
  have hcount : slots.length ≤ 2 ^ 16 := hmax.trans (by decide)
  obtain ⟨bytes', -, henc', hbytes'⟩ := TlvWriter.exists_writeAll
    (numbered_increasing (n := 0) (by rwa [Nat.zero_add, ← hbodies.length_eq]))
    fun p hp ↦ hshort p.2 (map_snd_numbered 0 bodies ▸ List.mem_map_of_mem hp)
  refine ⟨hmax, hreadable, bytes', encodeSlots_eq_ok_iff.mpr ⟨hcount, bodies, hbodies, henc'⟩, ?_⟩
  rw [hbytes', henc.length_eq]
  exact hle 0

end OpenCrate.Format
