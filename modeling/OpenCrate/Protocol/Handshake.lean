import OpenCrate.Protocol.Activation

/-!
# The documents of the handshake

The greeting, the challenge and the echo of `activation`: who the device claims to be, the secret that is
sealed to the keys it named, and the proof that it opened all of its parts.
-/

namespace OpenCrate.Protocol.Activation

open OpenCrate.Format OpenCrate.Crypto
open Except (refuseIf okOr)

/-! ### Greetings -/

namespace HelloTag

def deviceFpr : UInt16 := 1

def devicePublic : UInt16 := 2

def deviceTpm : UInt16 := 3

def deviceHybridKem : UInt16 := 4

def deviceHybridPublic : UInt16 := 5

end HelloTag

/-- Greeting: who the device claims to be. -/
structure Hello where
  deviceFpr : Digest
  devicePublic : Digest
  deviceTpm : Option (List UInt8)
  /-- The device's hybrid pair: mechanism and public key. -/
  deviceHybrid : Option (UInt8 × List UInt8)
  deriving DecidableEq

/-- Encode a greeting. -/
def encodeHello (hello : Hello) : Except FormatError (List UInt8) := do
  let w ← TlvWriter.new.put HelloTag.deviceFpr hello.deviceFpr.toList
  let w ← w.put HelloTag.devicePublic hello.devicePublic.toList
  let w ← w.putOpt HelloTag.deviceTpm hello.deviceTpm
  let w ← w.putOpt HelloTag.deviceHybridKem (hello.deviceHybrid.map fun pair ↦ [pair.1])
  let w ← w.putOpt HelloTag.deviceHybridPublic (hello.deviceHybrid.map Prod.snd)
  .ok w.finish

/-- The fields of a greeting read so far. -/
structure HelloReading where
  deviceFpr : Option Digest := none
  devicePublic : Option Digest := none
  deviceTpm : Option (List UInt8) := none
  hybridKem : Option UInt8 := none
  hybridPublic : Option (List UInt8) := none

/-- A hardware key, which has 65 bytes. -/
def tpmField (f : Field) : Except FormatError (List UInt8) := do
  refuseIf (f.value.length ≠ 65) f.badLength
  .ok f.value

/-- One field of a greeting, by the tags of `HelloTag`. -/
def decodeHelloStep (acc : HelloReading) (f : Field) : Except FormatError HelloReading :=
  match f.tag with
  | 1 => (f.array 32).map fun v ↦ { acc with deviceFpr := some v }
  | 2 => (f.array 32).map fun v ↦ { acc with devicePublic := some v }
  | 3 => (tpmField f).map fun v ↦ { acc with deviceTpm := some v }
  | 4 => f.u8.map fun v ↦ { acc with hybridKem := some v }
  | 5 => .ok { acc with hybridPublic := some f.value }
  | other => skipUnknown other acc

/-- Length of a hybrid public key by its mechanism. -/
def hybridKeyLen : UInt8 → Option ℕ
  | 4 => some Xwing.publicKeyLen
  | 5 => some MlkemP256.publicKeyLen
  | _ => none

/-- Both halves of the hybrid pair, or neither. -/
def HelloReading.hybrid (acc : HelloReading) : Except FormatError (Option (UInt8 × List UInt8)) :=
  match acc.hybridKem, acc.hybridPublic with
  | some kem, some key => do
    let expected ← okOr (hybridKeyLen kem) (.badFieldLength HelloTag.deviceHybridKem 1)
    refuseIf (key.length ≠ expected) (.badFieldLength HelloTag.deviceHybridPublic key.length)
    .ok (some (kem, key))
  | none, none => .ok none
  | some _, none => .error (.missingField HelloTag.deviceHybridPublic)
  | none, some _ => .error (.missingField HelloTag.deviceHybridKem)

/-- The greeting that was read. -/
def HelloReading.hello (acc : HelloReading) : Except FormatError Hello := do
  let deviceHybrid ← acc.hybrid
  let deviceFpr ← okOr acc.deviceFpr (.missingField HelloTag.deviceFpr)
  let devicePublic ← okOr acc.devicePublic (.missingField HelloTag.devicePublic)
  .ok ⟨deviceFpr, devicePublic, acc.deviceTpm, deviceHybrid⟩

/-- Parse a greeting. -/
def decodeHello (bytes : List UInt8) : Except FormatError Hello :=
  TlvReader.foldFields decodeHelloStep (TlvReader.new bytes) {} >>= HelloReading.hello

/-- The tags and values of a greeting. -/
def Hello.contents (hello : Hello) : Contents :=
  [(HelloTag.deviceFpr, hello.deviceFpr.toList), (HelloTag.devicePublic, hello.devicePublic.toList)] ++
    optField HelloTag.deviceTpm hello.deviceTpm ++
    optField HelloTag.deviceHybridKem (hello.deviceHybrid.map fun pair ↦ [pair.1]) ++
    optField HelloTag.deviceHybridPublic (hello.deviceHybrid.map Prod.snd)

/-- A greeting is its records, and nothing is asked of them. -/
theorem encodeHello_eq_ok_iff {hello : Hello} {bytes : List UInt8} :
    encodeHello hello = .ok bytes ↔ Encodes bytes hello.contents := by
  simp only [encodeHello, TlvWriter.new_put_bind, TlvWriter.putMany_put_bind, TlvWriter.putMany_putOpt_bind,
    TlvWriter.putMany_finish_eq_ok_iff, Hello.contents, List.cons_append, List.nil_append]

/-- The tags of a greeting. -/
def helloTags : List UInt16 := [1, 2, 3, 4, 5]

theorem recordStep_decodeHelloStep : RecordStep helloTags decodeHelloStep where
  span_free _ _ _ _ _ := rfl
  skips acc tag value span h := by
    unfold decodeHelloStep
    split <;> first | rfl | simp_all [helloTags]

/-- A greeting whose keys have the lengths of their mechanisms. -/
structure Hello.Fits (hello : Hello) : Prop where
  tpm : ∀ key ∈ hello.deviceTpm, key.length = 65
  hybrid : ∀ pair ∈ hello.deviceHybrid, hybridKeyLen pair.1 = some pair.2.length

/-- The loop reads every record of a greeting into its place. -/
theorem foldlM_hello_contents {hello : Hello} (htpm : ∀ key ∈ hello.deviceTpm, key.length = 65) :
    hello.contents.foldlM (readField decodeHelloStep) {} =
      .ok ⟨some hello.deviceFpr, some hello.devicePublic, hello.deviceTpm, hello.deviceHybrid.map Prod.fst,
        hello.deviceHybrid.map Prod.snd⟩ := by
  obtain ⟨fpr, key, tpm, hybrid⟩ := hello
  cases tpm <;> cases hybrid
  all_goals
    simp_all [Hello.contents, readField, decodeHelloStep, HelloTag.deviceFpr, HelloTag.devicePublic,
      HelloTag.deviceTpm, HelloTag.deviceHybridKem, HelloTag.deviceHybridPublic, tpmField, Except.refuseIf]

/-- **The hybrid key is put together from two slots**, and has the length of its mechanism. -/
theorem HelloReading.hybrid_eq_ok_iff {acc : HelloReading} {pair : Option (UInt8 × List UInt8)} :
    acc.hybrid = .ok pair ↔ acc.hybridKem = pair.map Prod.fst ∧ acc.hybridPublic = pair.map Prod.snd ∧
      ∀ p ∈ pair, hybridKeyLen p.1 = some p.2.length := by
  obtain ⟨_, _, _, kem, key⟩ := acc
  cases kem with
  | none => cases key <;> cases pair <;> simp [HelloReading.hybrid]
  | some kem =>
    cases key with
    | none => cases pair <;> simp [HelloReading.hybrid]
    | some key =>
      cases pair with
      | none => simp [HelloReading.hybrid, Except.bind_eq_ok_iff]
      | some pair =>
        obtain ⟨kem', key'⟩ := pair
        simp only [HelloReading.hybrid, Except.bind_eq_ok_iff, Except.okOr_eq_ok_iff,
          Except.refuseIf_eq_ok_iff, not_not, Except.ok.injEq, Option.some.injEq, Prod.mk.injEq,
          Option.map_some, Option.mem_def, forall_eq']
        constructor
        · rintro ⟨_, hlen, ⟨⟩, rfl, rfl, rfl⟩
          exact ⟨rfl, rfl, hlen⟩
        · rintro ⟨rfl, rfl, hlen⟩
          exact ⟨_, hlen, (), rfl, rfl, rfl⟩

/-- What is read has keys of the lengths that their mechanisms have. -/
theorem fits_of_decodeHello {bytes : List UInt8} {hello : Hello} (h : decodeHello bytes = .ok hello) :
    hello.Fits := by
  obtain ⟨acc, hloop, hhello⟩ := Except.bind_eq_ok_iff.mp h
  obtain ⟨l, henc, -⟩ := exists_encodes_of_foldFields hloop
  rw [recordStep_decodeHelloStep.foldFields_eq henc] at hloop
  have htpm : ∀ key ∈ acc.deviceTpm, key.length = 65 := by
    refine Except.foldlM_invariant (P := fun acc ↦ ∀ key ∈ acc.deviceTpm, key.length = 65) hloop nofun ?_
    intro p _ acc acc' hacc hstep
    rw [readField, decodeHelloStep] at hstep
    split at hstep
    case h_3 =>
      obtain ⟨v, hv, rfl⟩ := Except.map_eq_ok_iff.mp hstep
      obtain ⟨hlen, hok⟩ := Except.check_bind_eq_ok_iff.mp hv
      rintro _ ⟨⟩
      exact Except.ok.inj hok ▸ not_not.mp (Except.refuseIf_eq_ok_iff.mp hlen)
    case h_5 => exact Except.ok.inj hstep ▸ hacc
    case h_6 => exact eq_of_skipUnknown hstep ▸ hacc
    all_goals
      obtain ⟨v, -, rfl⟩ := Except.map_eq_ok_iff.mp hstep
      exact hacc
  simp only [HelloReading.hello, Except.bind_eq_ok_iff, Except.okOr_eq_ok_iff] at hhello
  obtain ⟨pair, hpair, _, -, _, -, hok⟩ := hhello
  obtain rfl := Except.ok.inj hok
  exact ⟨htpm, (HelloReading.hybrid_eq_ok_iff.mp hpair).2.2⟩

/-- **A written greeting is read back** if and only if its keys have the lengths of their mechanisms. -/
theorem decodeHello_encodeHello_iff {hello : Hello} {bytes : List UInt8} (h : encodeHello hello = .ok bytes) :
    decodeHello bytes = .ok hello ↔ hello.Fits := by
  refine ⟨fits_of_decodeHello, fun hfits ↦ ?_⟩
  have hhybrid : HelloReading.hybrid ⟨some hello.deviceFpr, some hello.devicePublic, hello.deviceTpm,
      hello.deviceHybrid.map Prod.fst, hello.deviceHybrid.map Prod.snd⟩ = .ok hello.deviceHybrid :=
    HelloReading.hybrid_eq_ok_iff.mpr ⟨rfl, rfl, hfits.hybrid⟩
  rw [decodeHello, recordStep_decodeHelloStep.foldFields_eq (encodeHello_eq_ok_iff.mp h),
    foldlM_hello_contents hfits.tpm, Except.ok_bind, HelloReading.hello, hhybrid]
  rfl

/-! ### Challenges -/

namespace ChallengeTag

def software : UInt16 := 1

def hardware : UInt16 := 2

def hybrid : UInt16 := 3

end ChallengeTag

/-- Challenge: secret components sealed to the presented keys. -/
structure Challenge where
  software : SlotBlob
  hardware : Option SlotBlob
  hybrid : Option SlotBlob
  deriving DecidableEq

/-- A component that may be absent. -/
def encodeSlotOpt : Option SlotBlob → Except FormatError (Option (List UInt8))
  | some slot => (encodeSlot slot).map some
  | none => .ok none

/-- Encode a challenge. -/
def encodeChallenge (challenge : Challenge) : Except FormatError (List UInt8) := do
  let software ← encodeSlot challenge.software
  let w ← TlvWriter.new.put ChallengeTag.software software
  let hardware ← encodeSlotOpt challenge.hardware
  let w ← w.putOpt ChallengeTag.hardware hardware
  let hybrid ← encodeSlotOpt challenge.hybrid
  let w ← w.putOpt ChallengeTag.hybrid hybrid
  .ok w.finish

/-- The fields of a challenge read so far. -/
structure ChallengeReading where
  software : Option SlotBlob := none
  hardware : Option SlotBlob := none
  hybrid : Option SlotBlob := none

/-- One field of a challenge, by the tags of `ChallengeTag`. -/
def decodeChallengeStep (acc : ChallengeReading) (f : Field) : Except FormatError ChallengeReading :=
  match f.tag with
  | 1 => (decodeSlot f.value).map fun v ↦ { acc with software := some v }
  | 2 => (decodeSlot f.value).map fun v ↦ { acc with hardware := some v }
  | 3 => (decodeSlot f.value).map fun v ↦ { acc with hybrid := some v }
  | other => skipUnknown other acc

/-- The challenge that was read. -/
def ChallengeReading.challenge (acc : ChallengeReading) : Except FormatError Challenge := do
  let software ← okOr acc.software (.missingField ChallengeTag.software)
  .ok ⟨software, acc.hardware, acc.hybrid⟩

/-- Parse a challenge. -/
def decodeChallenge (bytes : List UInt8) : Except FormatError Challenge :=
  TlvReader.foldFields decodeChallengeStep (TlvReader.new bytes) {} >>= ChallengeReading.challenge

/-- The tags and values of a challenge. -/
def Challenge.contents (challenge : Challenge) : Contents :=
  [(ChallengeTag.software, slotBytes challenge.software)] ++
    optField ChallengeTag.hardware (challenge.hardware.map slotBytes) ++
    optField ChallengeTag.hybrid (challenge.hybrid.map slotBytes)

/-- A slot that may be missing. -/
theorem encodeSlotOpt_eq_ok_iff {slot : Option SlotBlob} {value : Option (List UInt8)} :
    encodeSlotOpt slot = .ok value ↔ (∀ s ∈ slot, s.Fits) ∧ value = slot.map slotBytes := by
  cases slot with
  | none => simp [encodeSlotOpt, eq_comm]
  | some slot =>
    simp only [encodeSlotOpt, Except.map_eq_ok_iff, encodeSlot_eq_ok_iff, Option.mem_def, Option.some.injEq,
      forall_eq', Option.map_some]
    constructor
    · rintro ⟨_, ⟨hfits, rfl⟩, rfl⟩
      exact ⟨hfits, rfl⟩
    · rintro ⟨hfits, rfl⟩
      exact ⟨_, ⟨hfits, rfl⟩, rfl⟩

/-- A challenge is its records, if its slots can be written. -/
theorem encodeChallenge_eq_ok_iff {challenge : Challenge} {bytes : List UInt8} :
    encodeChallenge challenge = .ok bytes ↔ challenge.software.Fits ∧ (∀ s ∈ challenge.hardware, s.Fits) ∧
      (∀ s ∈ challenge.hybrid, s.Fits) ∧ Encodes bytes challenge.contents := by
  rw [encodeChallenge, Except.bind_eq_ok_iff]
  simp only [TlvWriter.new_put_bind, TlvWriter.putMany_bind_eq_ok_iff, TlvWriter.putMany_putOpt_bind,
    TlvWriter.putMany_finish_eq_ok_iff, encodeSlot_eq_ok_iff, encodeSlotOpt_eq_ok_iff, Challenge.contents]
  constructor
  · rintro ⟨_, ⟨hsoftware, rfl⟩, _, ⟨hhardware, rfl⟩, _, ⟨hhybrid, rfl⟩, hbytes⟩
    exact ⟨hsoftware, hhardware, hhybrid, hbytes⟩
  · rintro ⟨hsoftware, hhardware, hhybrid, hbytes⟩
    exact ⟨_, ⟨hsoftware, rfl⟩, _, ⟨hhardware, rfl⟩, _, ⟨hhybrid, rfl⟩, hbytes⟩

/-- The tags of a challenge. -/
def challengeTags : List UInt16 := [1, 2, 3]

theorem recordStep_decodeChallengeStep : RecordStep challengeTags decodeChallengeStep where
  span_free _ _ _ _ _ := rfl
  skips acc tag value span h := by
    unfold decodeChallengeStep
    split <;> first | rfl | simp_all [challengeTags]

/-- The loop reads every record of a challenge into its place. -/
theorem foldlM_challenge_contents {challenge : Challenge} (hsoftware : challenge.software.Fits)
    (hhardware : ∀ s ∈ challenge.hardware, s.Fits) (hhybrid : ∀ s ∈ challenge.hybrid, s.Fits) :
    challenge.contents.foldlM (readField decodeChallengeStep) {} =
      .ok ⟨some challenge.software, challenge.hardware, challenge.hybrid⟩ := by
  have hdecode {slot : SlotBlob} (h : slot.Fits) : decodeSlot (slotBytes slot) = .ok slot :=
    decodeSlot_eq_ok_iff.mpr ⟨h, rfl⟩
  obtain ⟨software, hardware, hybrid⟩ := challenge
  cases hardware <;> cases hybrid
  all_goals
    simp_all [Challenge.contents, readField, decodeChallengeStep, ChallengeTag.software,
      ChallengeTag.hardware, ChallengeTag.hybrid]

/-- **A written challenge is read back.** -/
theorem decodeChallenge_encodeChallenge {challenge : Challenge} {bytes : List UInt8}
    (h : encodeChallenge challenge = .ok bytes) : decodeChallenge bytes = .ok challenge := by
  obtain ⟨hsoftware, hhardware, hhybrid, henc⟩ := encodeChallenge_eq_ok_iff.mp h
  rw [decodeChallenge, recordStep_decodeChallengeStep.foldFields_eq henc,
    foldlM_challenge_contents hsoftware hhardware hhybrid]
  rfl

/-! ### Echoes -/

namespace ProofTag

def echo : UInt16 := 1

end ProofTag

/-- The echo of a challenge: exactly 32 bytes when it is read. -/
structure Proof where
  echo : List UInt8
  deriving DecidableEq

/-- Encode an echo. -/
def encodeProof (proof : Proof) : Except FormatError (List UInt8) := do
  let w ← TlvWriter.new.put ProofTag.echo proof.echo
  .ok w.finish

/-- The fields of an echo read so far. -/
structure ProofReading where
  echo : Option (List UInt8) := none

/-- An echo of 32 bytes. -/
def echoField (f : Field) : Except FormatError (List UInt8) := do
  refuseIf (f.value.length ≠ 32) f.badLength
  .ok f.value

/-- One field of an echo. -/
def decodeProofStep (acc : ProofReading) (f : Field) : Except FormatError ProofReading :=
  match f.tag with
  | 1 => (echoField f).map fun v ↦ { acc with echo := some v }
  | other => skipUnknown other acc

/-- The echo that was read. -/
def ProofReading.proof (acc : ProofReading) : Except FormatError Proof := do
  let echo ← okOr acc.echo (.missingField ProofTag.echo)
  .ok ⟨echo⟩

/-- Parse an echo. -/
def decodeProof (bytes : List UInt8) : Except FormatError Proof :=
  TlvReader.foldFields decodeProofStep (TlvReader.new bytes) {} >>= ProofReading.proof

/-- A proof is one record. -/
theorem encodeProof_eq_ok_iff {proof : Proof} {bytes : List UInt8} :
    encodeProof proof = .ok bytes ↔ Encodes bytes [(ProofTag.echo, proof.echo)] := by
  simp only [encodeProof, TlvWriter.new_put_bind, TlvWriter.putMany_finish_eq_ok_iff]

/-- The tags of an echo. -/
def proofTags : List UInt16 := [1]

theorem recordStep_decodeProofStep : RecordStep proofTags decodeProofStep where
  span_free _ _ _ _ _ := rfl
  skips acc tag value span h := by
    unfold decodeProofStep
    split <;> first | rfl | simp_all [proofTags]

/-- **A written echo is read back** if and only if it has 32 bytes. -/
theorem decodeProof_encodeProof_iff {proof : Proof} {bytes : List UInt8} (h : encodeProof proof = .ok bytes) :
    decodeProof bytes = .ok proof ↔ proof.echo.length = 32 := by
  rw [decodeProof, recordStep_decodeProofStep.foldFields_eq (encodeProof_eq_ok_iff.mp h),
    List.foldlM_cons, readField]
  simp only [decodeProofStep, ProofTag.echo, echoField, Except.refuseIf]
  split_ifs with hlen
  · exact iff_of_false Except.error_ne_ok hlen
  · exact iff_of_true rfl (not_not.mp hlen)

end OpenCrate.Protocol.Activation
