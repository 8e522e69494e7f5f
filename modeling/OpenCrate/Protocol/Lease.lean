import OpenCrate.Format.PolicyMeaning
import OpenCrate.Format.TlvRecord
import OpenCrate.Protocol.SignedDocuments

/-!
# Leases

`lease` of `oc-protocol`: a server's signed permission to open one file on one device. The body has
three versions, and which of them it is follows from the optional fields it carries; the reader checks
that the version and the fields agree.

A lease that was written is read back with its server policy in normal form, which decides every
action as the policy did (`Lease.survives_wire`).
-/

namespace OpenCrate.Protocol

open OpenCrate.Format OpenCrate.Crypto
open Except (refuseIf okOr)

/-- Parsed lease: facts for the evaluator plus data the evaluator does not need. -/
structure Lease where
  /-- Which file it applies to. -/
  fileId : List.Vector UInt8 16
  facts : LeaseFacts
  deriving DecidableEq

namespace Lease

/-- Document version without optional fields but the clock. -/
def leaseVersion : UInt16 := 1

/-- Document version with a server policy. -/
def leaseVersionWithServerPolicy : UInt16 := 2

/-- Document version with the attestation flag. -/
def leaseVersionWithAttestation : UInt16 := 3

namespace Tag

def version : UInt16 := 1

def fileId : UInt16 := 2

def deviceFpr : UInt16 := 3

def policyHash : UInt16 := 4

def seq : UInt16 := 5

def epoch : UInt16 := 6

def issuedAt : UInt16 := 7

def expiresAt : UInt16 := 8

def status : UInt16 := 9

def opensRemaining : UInt16 := 10

def tpmClock : UInt16 := 11

def serverPolicy : UInt16 := 12

def attested : UInt16 := 13

end Tag

def statusActive : UInt8 := 1

def statusRevoked : UInt8 := 2

/-- The basis of an attestation on the wire. -/
def basis : Attestation → UInt8
  | .vendorCertificate => 1
  | .enrolledEk => 2

/-- The attestation a basis stands for. -/
def attestationOf : UInt8 → Except FormatError Attestation
  | 1 => .ok .vendorCertificate
  | 2 => .ok .enrolledEk
  | _ => .error (.badFieldLength Tag.attested 1)

/-- The version a lease is written in. -/
def versionOf (lease : Lease) : UInt16 :=
  if lease.facts.attested.isSome then leaseVersionWithAttestation
  else if lease.facts.serverPolicy.isSome then leaseVersionWithServerPolicy
  else leaseVersion

/-- Hardware clock readings on the wire. -/
def encodeClock (clock : TpmClock) : List UInt8 := toLeBytes clock.resetCount ++ toLeBytes clock.clockMs

/-- The server policy in the encoding of the author's policy. -/
def encodeServerPolicy : Option Policy → Except FormatError (Option (List UInt8))
  | none => .ok none
  | some policy => (PolicyCodec.encode containerVersion policy).map some

/-- Build a lease body. -/
def encode (lease : Lease) : Except FormatError (List UInt8) := do
  let w ← TlvWriter.new.put Tag.version (toLeBytes lease.versionOf)
  let w ← w.put Tag.fileId lease.fileId.toList
  let w ← w.put Tag.deviceFpr lease.facts.deviceFingerprint.toList
  let w ← w.put Tag.policyHash lease.facts.policyHash.toList
  let w ← w.put Tag.seq (toLeBytes lease.facts.seq)
  let w ← w.put Tag.epoch (toLeBytes lease.facts.epoch)
  let w ← w.put Tag.issuedAt (toLeBytes lease.facts.issuedAt)
  let w ← w.put Tag.expiresAt (toLeBytes lease.facts.expiresAt)
  let w ← w.put Tag.status [if lease.facts.revoked then statusRevoked else statusActive]
  -- always written: an empty value says that there is no limit
  let w ← w.put Tag.opensRemaining ((lease.facts.opensRemaining.map toLeBytes).getD [])
  let w ← w.putOpt Tag.tpmClock (lease.facts.tpmClock.map encodeClock)
  let policy ← encodeServerPolicy lease.facts.serverPolicy
  let w ← w.putOpt Tag.serverPolicy policy
  let w ← w.putOpt Tag.attested (lease.facts.attested.map fun attested ↦ [basis attested])
  .ok w.finish

/-- A little-endian number; the refusal names no field. -/
def leValue {τ : Type} [LeInt τ] (value : List UInt8) : Except FormatError τ :=
  okOr (ofLeBytes? value) (.badFieldLength 0 value.length)

/-- Hardware clock readings. -/
def decodeClock (value : List UInt8) : Except FormatError TpmClock := do
  let reset ← okOr (slice? value 0 4) (.badFieldLength Tag.tpmClock value.length)
  let ms ← okOr (slice? value 4 12) (.badFieldLength Tag.tpmClock value.length)
  refuseIf (value.length ≠ 12) (.badFieldLength Tag.tpmClock value.length)
  let reset ← okOr (ofLeBytes? reset) (.badFieldLength Tag.tpmClock 4)
  let ms ← okOr (ofLeBytes? ms) (.badFieldLength Tag.tpmClock 8)
  .ok ⟨reset, ms⟩

/-- The state of a lease; an unknown one is refused. -/
def decodeStatus : UInt8 → Except FormatError Bool
  | 1 => .ok false
  | 2 => .ok true
  | _ => .error (.badFieldLength Tag.status 1)

/-- Remaining opens; an empty value says that there is no limit. -/
def decodeOpens (value : List UInt8) : Except FormatError (Option UInt32) :=
  if value = [] then .ok none else (leValue value).map some

/-- The fields read so far. -/
structure Reading where
  version : Option UInt16 := none
  fileId : Option (List.Vector UInt8 16) := none
  deviceFpr : Option Digest := none
  policyHash : Option Digest := none
  seq : Option UInt64 := none
  epoch : Option UInt64 := none
  issuedAt : Option Int64 := none
  expiresAt : Option Int64 := none
  status : Option Bool := none
  opensRemaining : Option (Option UInt32) := none
  tpmClock : Option TpmClock := none
  serverPolicy : Option Policy := none
  attested : Option Attestation := none

/-- One field of a lease. -/
def decodeStep (acc : Reading) (f : Field) : Except FormatError Reading :=
  match f.tag with
  | 1 => f.u16.map fun v ↦ { acc with version := some v }
  | 2 => (f.array 16).map fun v ↦ { acc with fileId := some v }
  | 3 => (f.array 32).map fun v ↦ { acc with deviceFpr := some v }
  | 4 => (f.array 32).map fun v ↦ { acc with policyHash := some v }
  | 5 => (leValue f.value).map fun v ↦ { acc with seq := some v }
  | 6 => (leValue f.value).map fun v ↦ { acc with epoch := some v }
  | 7 => (leValue f.value).map fun v ↦ { acc with issuedAt := some v }
  | 8 => (leValue f.value).map fun v ↦ { acc with expiresAt := some v }
  | 9 => (f.u8 >>= decodeStatus).map fun v ↦ { acc with status := some v }
  | 10 => (decodeOpens f.value).map fun v ↦ { acc with opensRemaining := some v }
  | 11 => (decodeClock f.value).map fun v ↦ { acc with tpmClock := some v }
  | 12 => (PolicyCodec.decode supportedReaderVersion f.value).map fun v ↦
      { acc with serverPolicy := some v }
  | 13 => (f.u8 >>= attestationOf).map fun v ↦ { acc with attested := some v }
  | other => skipUnknown other acc

/-- The version and the fields agree. -/
def checkVersion (version : UInt16) (policy attested : Bool) : Except FormatError Unit :=
  match version, policy, attested with
  | 1, false, false => .ok ()
  | 2, true, false => .ok ()
  | 3, _, true => .ok ()
  | 1, _, true => .error (.unknownCriticalField Tag.attested)
  | 2, _, true => .error (.unknownCriticalField Tag.attested)
  | 3, _, false => .error (.missingField Tag.attested)
  | 1, true, false => .error (.unknownCriticalField Tag.serverPolicy)
  | 2, false, false => .error (.missingField Tag.serverPolicy)
  | other, _, _ => .error (.unsupportedLeaseVersion other)

/-- The lease that was read. -/
def Reading.lease (acc : Reading) : Except FormatError Lease := do
  let version ← okOr acc.version (.missingField Tag.version)
  checkVersion version acc.serverPolicy.isSome acc.attested.isSome
  let fileId ← okOr acc.fileId (.missingField Tag.fileId)
  let deviceFingerprint ← okOr acc.deviceFpr (.missingField Tag.deviceFpr)
  let policyHash ← okOr acc.policyHash (.missingField Tag.policyHash)
  let seq ← okOr acc.seq (.missingField Tag.seq)
  let epoch ← okOr acc.epoch (.missingField Tag.epoch)
  let issuedAt ← okOr acc.issuedAt (.missingField Tag.issuedAt)
  let expiresAt ← okOr acc.expiresAt (.missingField Tag.expiresAt)
  let opensRemaining ← okOr acc.opensRemaining (.missingField Tag.opensRemaining)
  let revoked ← okOr acc.status (.missingField Tag.status)
  .ok ⟨fileId, ⟨deviceFingerprint, policyHash, seq, epoch, issuedAt, expiresAt, opensRemaining, revoked,
    acc.serverPolicy, acc.attested, acc.tpmClock⟩⟩

/-- Parse a lease body without verifying its signature. -/
def decode (body : List UInt8) : Except FormatError Lease :=
  TlvReader.foldFields decodeStep (TlvReader.new body) {} >>= Reading.lease

/-- Lease signature transcript. -/
def signingTranscript (body : List UInt8) : Transcript := (Transcript.new .lease).field body

/-- Verify the signature over raw body bytes, then parse the lease. -/
def verifySigned (ed : Ed25519) (bytes : List UInt8) (leaseVerifyKey : Digest) :
    Except FormatError Lease := do
  let (signature, body) ← splitSignature bytes
  (verify ed leaseVerifyKey (signingTranscript body) signature).mapError fun _ ↦ .badHeaderSignature
  decode body

/-! ### The fields of a lease -/

/-- The fields every lease has. -/
def commonContents (lease : Lease) : Contents :=
  [(Tag.version, toLeBytes lease.versionOf), (Tag.fileId, lease.fileId.toList),
    (Tag.deviceFpr, lease.facts.deviceFingerprint.toList),
    (Tag.policyHash, lease.facts.policyHash.toList), (Tag.seq, toLeBytes lease.facts.seq),
    (Tag.epoch, toLeBytes lease.facts.epoch), (Tag.issuedAt, toLeBytes lease.facts.issuedAt),
    (Tag.expiresAt, toLeBytes lease.facts.expiresAt),
    (Tag.status, [if lease.facts.revoked then statusRevoked else statusActive]),
    (Tag.opensRemaining, (lease.facts.opensRemaining.map toLeBytes).getD [])]

/-- The tags and values of a lease, given the bytes of its server policy. -/
def contents (lease : Lease) (policy : Option (List UInt8)) : Contents :=
  lease.commonContents ++ (optField Tag.tpmClock (lease.facts.tpmClock.map encodeClock) ++
    (optField Tag.serverPolicy policy ++
      optField Tag.attested (lease.facts.attested.map fun attested ↦ [basis attested])))

/-- A lease is its records around the policy of the server. -/
theorem encode_eq_ok_iff {lease : Lease} {bytes : List UInt8} :
    lease.encode = .ok bytes ↔
      ∃ policy, encodeServerPolicy lease.facts.serverPolicy = .ok policy ∧
        Encodes bytes (lease.contents policy) := by
  simp only [encode, TlvWriter.new_put_bind, TlvWriter.putMany_put_bind,
    TlvWriter.putMany_putOpt_bind, TlvWriter.putMany_bind_eq_ok_iff,
    TlvWriter.putMany_finish_eq_ok_iff, contents, commonContents, List.cons_append, List.nil_append,
    List.append_assoc]

/-- The tags of a lease. -/
def tags : List UInt16 := [1, 2, 3, 4, 5, 6, 7, 8, 9, 10, 11, 12, 13]

theorem recordStep_decodeStep : RecordStep tags decodeStep where
  span_free _ _ _ _ _ := rfl
  skips acc tag value span h := by
    unfold decodeStep
    split <;> first | rfl | simp_all [tags]

/-! ### Reading the fields back -/

@[simp] theorem leValue_toLeBytes {τ : Type} [LeInt τ] (x : τ) : leValue (toLeBytes x) = .ok x := by
  rw [leValue, ofLeBytes?_toLeBytes]
  rfl

@[simp] theorem decodeClock_encodeClock (clock : TpmClock) : decodeClock (encodeClock clock) = .ok clock := by
  have hreset : (toLeBytes clock.resetCount).length = 4 := length_toLeBytes _
  have hms : (toLeBytes clock.clockMs).length = 8 := length_toLeBytes _
  have hfirst : slice? (encodeClock clock) 0 4 = some (toLeBytes clock.resetCount) :=
    slice?_eq_some_iff.mpr ⟨Nat.zero_le _, by simp [encodeClock, hreset], by
      rw [encodeClock, List.drop_zero, Nat.sub_zero, List.take_left' hreset]⟩
  have hsecond : slice? (encodeClock clock) 4 12 = some (toLeBytes clock.clockMs) := by
    refine slice?_eq_some_iff.mpr ⟨by decide, by simp [encodeClock, hreset, hms], ?_⟩
    rw [encodeClock, List.drop_left' hreset, List.take_of_length_le hms.le]
  have hlength : (encodeClock clock).length = 12 := by simp [encodeClock, hreset, hms]
  simp [decodeClock, hfirst, hsecond, hlength, Except.refuseIf]

@[simp] theorem attestationOf_basis (attested : Attestation) :
    attestationOf (basis attested) = .ok attested := by
  cases attested <;> rfl

@[simp] theorem decodeStatus_ite (revoked : Bool) :
    decodeStatus (if revoked then statusRevoked else statusActive) = .ok revoked := by
  cases revoked <;> rfl

@[simp] theorem decodeOpens_getD (opens : Option UInt32) :
    decodeOpens ((opens.map toLeBytes).getD []) = .ok opens := by
  cases opens with
  | none => rfl
  | some n =>
    have hne : toLeBytes n ≠ [] := List.ne_nil_of_length_pos (by rw [length_toLeBytes]; decide)
    simp [decodeOpens, hne]

/-- The version that is written is the one that is expected. -/
@[simp] theorem checkVersion_versionOf (lease : Lease) :
    checkVersion lease.versionOf lease.facts.serverPolicy.isSome lease.facts.attested.isSome = .ok () := by
  rw [versionOf]
  cases lease.facts.attested.isSome <;> cases lease.facts.serverPolicy.isSome <;> rfl

/-! ### Written and read back -/

/-- What a lease is read back as. -/
def normal (lease : Lease) : Lease :=
  { lease with
    facts := { lease.facts with
      serverPolicy := lease.facts.serverPolicy.map (PolicyCodec.normal containerVersion) } }

/-- The normal form has the same version. -/
theorem versionOf_normal (lease : Lease) : lease.normal.versionOf = lease.versionOf := by
  simp [versionOf, normal]

/-- The slots of the fields every lease has. -/
def Reading.common (lease : Lease) : Reading where
  version := some lease.versionOf
  fileId := some lease.fileId
  deviceFpr := some lease.facts.deviceFingerprint
  policyHash := some lease.facts.policyHash
  seq := some lease.facts.seq
  epoch := some lease.facts.epoch
  issuedAt := some lease.facts.issuedAt
  expiresAt := some lease.facts.expiresAt
  status := some lease.facts.revoked
  opensRemaining := some lease.facts.opensRemaining

/-- The slots of a lease. -/
def Reading.of (lease : Lease) : Reading :=
  { Reading.common lease with
    tpmClock := lease.facts.tpmClock
    serverPolicy := lease.facts.serverPolicy
    attested := lease.facts.attested }

/-- The loop reads the records that every lease has. -/
theorem foldlM_commonContents (lease : Lease) :
    lease.commonContents.foldlM (readField decodeStep) {} = .ok (Reading.common lease) := by
  simp [commonContents, readField, decodeStep, Tag.version, Tag.fileId, Tag.deviceFpr, Tag.policyHash,
    Tag.seq, Tag.epoch, Tag.issuedAt, Tag.expiresAt, Tag.status, Tag.opensRemaining, Reading.common]

theorem Reading.common_normal (lease : Lease) : Reading.common lease.normal = Reading.common lease := by
  rw [Reading.common, versionOf_normal]
  rfl

/-- The server policy comes back in normal form. -/
theorem foldlM_serverPolicy {serverPolicy : Option Policy} {policy : Option (List UInt8)}
    (h : encodeServerPolicy serverPolicy = .ok policy) {acc : Reading} (hacc : acc.serverPolicy = none) :
    (optField Tag.serverPolicy policy).foldlM (readField decodeStep) acc =
      .ok { acc with serverPolicy := serverPolicy.map (PolicyCodec.normal containerVersion) } := by
  cases serverPolicy with
  | none =>
    obtain rfl := Except.ok.inj h
    obtain ⟨⟩ := acc
    obtain rfl := hacc
    rfl
  | some p =>
    obtain ⟨bytes, hencode, rfl⟩ := Except.map_eq_ok_iff.mp h
    obtain ⟨bytes', hencode', -, hdecode⟩ := PolicyCodec.decode_encode_normal containerVersion p
    obtain rfl := Except.ok.inj (hencode.symm.trans hencode')
    have hread : PolicyCodec.decode supportedReaderVersion bytes =
      .ok (PolicyCodec.normal containerVersion p) := hdecode
    simp [readField, decodeStep, Tag.serverPolicy, hread]

/-- **The loop reads a lease in its normal form.** -/
theorem foldlM_contents {lease : Lease} {policy : Option (List UInt8)}
    (h : encodeServerPolicy lease.facts.serverPolicy = .ok policy) :
    (lease.contents policy).foldlM (readField decodeStep) {} = .ok (Reading.of lease.normal) := by
  have hclock : (optField Tag.tpmClock (lease.facts.tpmClock.map encodeClock)).foldlM
      (readField decodeStep) (Reading.common lease.normal) =
        .ok { Reading.common lease.normal with tpmClock := lease.facts.tpmClock } :=
    foldlM_optField (fun clock ↦ ({ Reading.common lease.normal with tpmClock := clock } : Reading))
      fun clock _ ↦ by simp [readField, decodeStep, Tag.tpmClock]
  have hattested : (optField Tag.attested (lease.facts.attested.map fun attested ↦ [basis attested])).foldlM
      (readField decodeStep) { Reading.of lease.normal with attested := none } =
        .ok (Reading.of lease.normal) :=
    foldlM_optField (fun attested ↦ ({ Reading.of lease.normal with attested := attested } : Reading))
      fun attested _ ↦ by simp [readField, decodeStep, Tag.attested]
  rw [contents, List.foldlM_append, foldlM_commonContents, Except.ok_bind, ← Reading.common_normal,
    List.foldlM_append, hclock, Except.ok_bind, List.foldlM_append, foldlM_serverPolicy h rfl, Except.ok_bind]
  exact hattested

/-- And what is read is put together again. -/
theorem Reading.lease_of (lease : Lease) : (Reading.of lease).lease = .ok lease := by
  simp [Reading.of, Reading.common, Reading.lease]

/-- **A lease that was written is read back**, with its server policy in normal form. -/
theorem decode_encode {lease : Lease} {bytes : List UInt8} (h : lease.encode = .ok bytes) :
    decode bytes = .ok lease.normal := by
  obtain ⟨policy, hpolicy, henc⟩ := encode_eq_ok_iff.mp h
  rw [decode, recordStep_decodeStep.foldFields_eq henc, foldlM_contents hpolicy, Except.ok_bind]
  exact Reading.lease_of _

/-- **Every lease can be written.** -/
theorem exists_encode (lease : Lease) : ∃ bytes, lease.encode = .ok bytes := by
  obtain ⟨policy, hpolicy, hlen⟩ : ∃ policy,
      encodeServerPolicy lease.facts.serverPolicy = .ok policy ∧ ∀ b ∈ policy, b.length < 2 ^ 32 := by
    rcases lease.facts.serverPolicy with - | p
    · exact ⟨none, rfl, nofun⟩
    · obtain ⟨bytes, hencode, hlen, -⟩ := PolicyCodec.decode_encode_normal containerVersion p
      refine ⟨some bytes, Except.map_eq_ok_iff.mpr ⟨bytes, hencode, rfl⟩, ?_⟩
      rintro _ ⟨⟩
      exact hlen
  obtain ⟨bytes, hbytes⟩ : ∃ bytes, Encodes bytes (lease.contents policy) := by
    refine Encodes.exists_iff.mpr ⟨?_, ?_⟩
    · simp only [contents, List.map_append]
      exact List.Pairwise.sublist ((List.Sublist.refl [1, 2, 3, 4, 5, 6, 7, 8, 9, 10]).append
        ((optField_tags_sublist 11 _).append
          ((optField_tags_sublist 12 _).append (optField_tags_sublist 13 _)))) (by decide)
    · have hopens : ((lease.facts.opensRemaining.map toLeBytes).getD []).length ≤ 4 := by
        cases lease.facts.opensRemaining <;> simp [length_toLeBytes]
      simp only [contents, commonContents, List.forall_mem_append, List.forall_mem_cons,
        forall_mem_optField, Option.map_eq_some_iff, length_toLeBytes, List.Vector.toList_length]
      refine ⟨by simp; omega, ?_, hlen, ?_⟩
      · rintro _ ⟨clock, -, rfl⟩
        simp [encodeClock, length_toLeBytes]
      · rintro _ ⟨attested, -, rfl⟩
        exact Nat.one_lt_two_pow (by decide)
  exact ⟨bytes, encode_eq_ok_iff.mpr ⟨policy, hpolicy, hbytes⟩⟩

/-! ### What was read -/

/-- The version that was read is that of a field of the document, and the server policy is normal. -/
def Reading.Sound (l : Contents) (acc : Reading) : Prop :=
  (∀ version ∈ acc.version, (Tag.version, toLeBytes version) ∈ l) ∧
    ∀ policy ∈ acc.serverPolicy, PolicyCodec.normal containerVersion policy = policy

/-- One record keeps what was read sound: every slot has the value of its own record. -/
theorem Reading.Sound.decodeStep {l : Contents} {acc acc' : Reading} {p : UInt16 × List UInt8}
    (hp : p ∈ l) (hacc : acc.Sound l) (h : readField decodeStep acc p = .ok acc') : acc'.Sound l := by
  obtain ⟨tag, value⟩ := p
  rw [readField, Lease.decodeStep] at h
  split at h
  case h_1 htag =>
    obtain ⟨version, hversion, rfl⟩ := Except.map_eq_ok_iff.mp h
    refine ⟨?_, hacc.2⟩
    rintro _ ⟨⟩
    obtain rfl : tag = 1 := htag
    obtain rfl : value = toLeBytes version := Field.le_eq_ok_iff.mp hversion
    exact hp
  case h_12 =>
    obtain ⟨policy, hpolicy, rfl⟩ := Except.map_eq_ok_iff.mp h
    refine ⟨hacc.1, ?_⟩
    rintro _ ⟨⟩
    exact PolicyCodec.normal_of_decode hpolicy
  case h_14 =>
    obtain rfl := eq_of_skipUnknown h
    exact hacc
  all_goals
    obtain ⟨v, -, rfl⟩ := Except.map_eq_ok_iff.mp h
    exact hacc

/-- **The version says which optional parts there are.** -/
theorem checkVersion_eq_ok_iff {version : UInt16} {policy attested : Bool} :
    checkVersion version policy attested = .ok () ↔
      version = if attested then leaseVersionWithAttestation
        else if policy then leaseVersionWithServerPolicy else leaseVersion := by
  cases policy <;> cases attested <;> unfold checkVersion <;> split <;>
    simp_all [leaseVersion, leaseVersionWithServerPolicy, leaseVersionWithAttestation]

/-- **What a lease is read from.** Its version field is the one its optional fields call for, and its
server policy is in normal form. -/
theorem sound_of_decode {body : List UInt8} {lease : Lease} (h : decode body = .ok lease) :
    lease.normal = lease ∧
      ∃ l, Encodes body l ∧ (Tag.version, toLeBytes lease.versionOf) ∈ l := by
  obtain ⟨acc, hloop, hlease⟩ := Except.bind_eq_ok_iff.mp h
  obtain ⟨l, henc, -⟩ := exists_encodes_of_foldFields hloop
  rw [recordStep_decodeStep.foldFields_eq henc] at hloop
  have hinv := Except.foldlM_invariant (P := Reading.Sound l) hloop
  obtain ⟨hversion, hpolicy⟩ := hinv ⟨nofun, nofun⟩ fun p hp _ _ hacc hstep ↦ hacc.decodeStep hp hstep
  simp only [Reading.lease, Except.bind_eq_ok_iff, Except.okOr_eq_ok_iff] at hlease
  obtain ⟨version, hread, ⟨⟩, hcheck, fileId, -, deviceFpr, -, policyHash, -, seq, -, epoch, -,
    issuedAt, -, expiresAt, -, opens, -, revoked, -, hok⟩ := hlease
  obtain rfl := Except.ok.inj hok
  refine ⟨?_, l, henc, ?_⟩
  · rw [normal]
    cases hserver : acc.serverPolicy with
    | none => rfl
    | some policy => simp [hpolicy policy hserver]
  · rw [versionOf, ← checkVersion_eq_ok_iff.mp hcheck]
    exact hversion version hread

/-- **A lease survives its wire form.** Every lease can be written; it is read back with its server
policy in normal form, which decides every action as the lease did. What is read has the version its
optional fields call for, and is read again from what it is written as. -/
theorem survives_wire :
    (∀ lease : Lease,
      (∀ policy ∈ lease.facts.serverPolicy, ∀ tag ∈ policy.unknownActions, ¬(1 ≤ tag ∧ tag ≤ 6)) →
      ∃ bytes read, lease.encode = .ok bytes ∧ decode bytes = .ok read ∧
        read = { lease with facts := { lease.facts with
          serverPolicy := lease.facts.serverPolicy.map PolicyCodec.dropVacuous } } ∧
        ∀ author action ctx,
          evaluate author (some read.facts) action ctx = evaluate author (some lease.facts) action ctx) ∧
    ∀ (body : List UInt8) (lease : Lease), decode body = .ok lease →
      (∃ (version : UInt16) (l : Contents), Encodes body l ∧ (Tag.version, toLeBytes version) ∈ l ∧
        (version = 3 ↔ lease.facts.attested.isSome) ∧
        (version = 2 ↔ lease.facts.attested = none ∧ lease.facts.serverPolicy.isSome) ∧
        (version = 1 ↔ lease.facts.attested = none ∧ lease.facts.serverPolicy = none)) ∧
      ∃ bytes, lease.encode = .ok bytes ∧ decode bytes = .ok lease := by
  refine ⟨fun lease hunknown ↦ ?_, fun body lease h ↦ ?_⟩
  · obtain ⟨bytes, hencode⟩ := lease.exists_encode
    -- the wire drops the vacuous rules, and no other ones
    have hnormal : ∀ policy ∈ lease.facts.serverPolicy,
        PolicyCodec.normal containerVersion policy = PolicyCodec.dropVacuous policy := by
      intro policy hpolicy
      exact PolicyCodec.normal_eq_dropVacuous (by decide) fun tag htag ↦
        PolicyCodec.tagToAction_eq_none_iff.mpr (hunknown policy hpolicy tag htag)
    have hmap := Option.map_congr hnormal
    refine ⟨bytes, lease.normal, hencode, decode_encode hencode, ?_, fun author action ctx ↦ ?_⟩
    · rw [normal, hmap]
    · exact evaluate_map_serverPolicy fun policy hpolicy ↦
        (hnormal policy hpolicy).symm ▸ PolicyCodec.sameMeaning_dropVacuous policy
  · obtain ⟨hnormal, l, henc, hversion⟩ := sound_of_decode h
    refine ⟨⟨_, l, henc, hversion, ?_⟩, ?_⟩
    -- the version is the smallest one that can hold what is there
    · rw [versionOf]
      rcases lease.facts.attested with - | attested <;>
        rcases lease.facts.serverPolicy with - | policy <;>
        simp [leaseVersion, leaseVersionWithServerPolicy, leaseVersionWithAttestation]
    · obtain ⟨bytes, hencode⟩ := lease.exists_encode
      exact ⟨bytes, hencode, hnormal ▸ decode_encode hencode⟩

end Lease

end OpenCrate.Protocol
