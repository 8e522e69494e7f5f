import OpenCrate.Protocol.Attenuation
import OpenCrate.Protocol.SignedDocuments

/-!
# What a door approves, the server sees

A door decides about arguments in memory (`argsWithin`), and they have not gone through the shape
checks of the wire. Within a rule of the right shape they pass all of these nevertheless
(`checkArgsShape_of_argsWithin`): what `argsWithin` compares for equality has the shape of the rule,
and what it compares by components it checks itself. Hence a request and a lease that carry approved
arguments can be written, and the server reads the arguments that the door approved.
-/

namespace OpenCrate.Protocol.Action

open OpenCrate.Format OpenCrate.Crypto
open Except (refuseIf okOr)

/-- Arguments within a checked limit pass the check of their own shape. -/
theorem checkArgsShape_of_admits {limit : Constraint} {args : Args}
    (hlimit : checkConstraintShape limit = .ok ()) (h : limit.Admits args) :
    checkArgsShape args = .ok () := by
  cases h with
  | gitPush remote branch => exact hlimit
  | treeRemove h => exact h.1
  | treeRename hsource htarget =>
    exact Except.check_bind_eq_ok_iff.mpr ⟨checkTreePath_tag _ hsource.1, checkTreePath_tag _ htarget.1⟩
  | httpRequest hmethod hpath habove hunder hlen =>
    obtain ⟨hhost, -⟩ := Except.check_bind_eq_ok_iff.mp hlimit
    refine Except.check_bind_eq_ok_iff.mpr ⟨hhost, Except.check_bind_eq_ok_iff.mpr ⟨hpath, ?_⟩⟩
    exact Except.refuseIf_eq_ok_iff.mpr (not_lt.mpr hlen)

/-- **Arguments within a rule have the shape that the wire asks for.** -/
theorem checkArgsShape_of_argsWithin {rule : ActionRule} {args : Args}
    (hrule : checkRuleShape rule = .ok ()) (h : argsWithin rule args = .ok ()) :
    checkArgsShape args = .ok () := by
  obtain ⟨-, hlimit⟩ := Except.check_bind_eq_ok_iff.mp hrule
  obtain ⟨-, -, hadmits⟩ := argsWithin_eq_ok_iff.mp h
  exact checkArgsShape_of_admits hlimit hadmits

/-- So does the request that carries them. -/
theorem checkRequestShape_eq_ok {ask : ActionRequest} (hkind : ask.kind = ask.args.kind)
    (hnote : checkNote ask.note RequestTag.note = .ok ()) (hargs : checkArgsShape ask.args = .ok ()) :
    checkRequestShape ask = .ok () := by
  refine Except.check_bind_eq_ok_iff.mpr ⟨Except.refuseIf_eq_ok_iff.mpr (not_not.mpr hkind), ?_⟩
  exact Except.check_bind_eq_ok_iff.mpr ⟨hnote, hargs⟩

/-- The longest validity, without the saturation at the end of the range. -/
theorem le_saturatingAdd_actionLeaseSeconds {issuedAt expiresAt : Int64}
    (h : expiresAt.toInt ≤ issuedAt.toInt + 30) :
    expiresAt ≤ issuedAt.saturatingAdd actionLeaseSeconds := by
  have hthirty : actionLeaseSeconds.toInt = 30 := by decide
  have hhigh := expiresAt.toInt_lt
  have hlow := issuedAt.le_toInt
  rw [Int64.le_iff_toInt_le, Int64.saturatingAdd, Int64.toInt_clamp, hthirty]
  omega

/-- And the lease that approves them. -/
theorem checkLeaseShape_eq_ok {lease : ActionLease} (hkind : lease.kind = lease.args.kind)
    (hfrom : lease.issuedAt ≤ lease.expiresAt)
    (hto : lease.expiresAt.toInt ≤ lease.issuedAt.toInt + 30)
    (hargs : checkArgsShape lease.args = .ok ()) : checkLeaseShape lease = .ok () := by
  have hwindow := le_saturatingAdd_actionLeaseSeconds hto
  refine Except.check_bind_eq_ok_iff.mpr ⟨Except.refuseIf_eq_ok_iff.mpr (not_not.mpr hkind), ?_⟩
  refine Except.check_bind_eq_ok_iff.mpr ⟨Except.refuseIf_eq_ok_iff.mpr (Int64.not_lt.mpr hfrom), ?_⟩
  exact Except.check_bind_eq_ok_iff.mpr
    ⟨Except.refuseIf_eq_ok_iff.mpr (Int64.not_lt.mpr hwindow), hargs⟩

variable (ed : Ed25519)

/-- **What the door approves reaches the server as it is.** Arguments within a rule can be written;
a request that carries them is read as it was written, so that the server decides about the same
arguments; and so is a lease that carries them, for at most thirty seconds, under the key for which
its signature is valid. -/
theorem approved_args_reach_server {rule : ActionRule} {args : Args}
    (hrule : checkRuleShape rule = .ok ()) (h : argsWithin rule args = .ok ()) :
    (∃ raw, encodeArgs args = .ok raw) ∧
      (∀ ask : ActionRequest, ask.kind = args.kind → ask.args = args →
        checkNote ask.note RequestTag.note = .ok () →
        ∃ bytes, encodeRequest ask = .ok bytes ∧ decodeRequest bytes = .ok ask ∧
          ∀ seen, decodeRequest bytes = .ok seen →
            seen.args = args ∧ argsWithin rule seen.args = .ok ()) ∧
      ∀ lease : ActionLease, lease.kind = args.kind → lease.args = args →
        lease.issuedAt ≤ lease.expiresAt → lease.expiresAt.toInt ≤ lease.issuedAt.toInt + 30 →
        ∃ body, leaseBody lease = .ok body ∧
          encodeLease lease = .ok (lease.signature.toList ++ body) ∧
          ∀ key, verify ed key (leaseTranscript body) lease.signature = .ok () →
            decodeLease ed (lease.signature.toList ++ body) key = .ok lease := by
  have hargs := checkArgsShape_of_argsWithin hrule h
  refine ⟨?_, ?_, ?_⟩
  · obtain ⟨raw, hraw, -⟩ := exists_encodeArgs hargs
    exact ⟨raw, hraw⟩
  · rintro ask hkind rfl hnote
    obtain ⟨bytes, hbytes⟩ := exists_encodeRequest (checkRequestShape_eq_ok hkind hnote hargs)
    have hread : decodeRequest bytes = .ok ask := writerReader_request.read_back hbytes
    refine ⟨bytes, hbytes, hread, ?_⟩
    intro seen hseen
    obtain rfl : ask = seen := Except.ok.inj (hread.symm.trans hseen)
    exact ⟨rfl, h⟩
  · rintro lease hkind rfl hfrom hto
    obtain ⟨body, hbody⟩ := exists_leaseBody (checkLeaseShape_eq_ok hkind hfrom hto hargs)
    have hencoded : encodeLease lease = .ok (lease.signature.toList ++ body) := by
      rw [encodeLease, hbody, Except.ok_bind]
    refine ⟨body, hbody, hencoded, ?_⟩
    intro key hvalid
    refine (law_leaseCodec ed).read_back hencoded nofun ?_
    have hlen : lease.signature.toList.length = signatureLen := lease.signature.toList_length
    show verify ed key (leaseTranscript (List.drop signatureLen _)) lease.signature = _
    rw [List.drop_left' hlen, hvalid]

/-- The lease-signing key of a sample server. -/
def sampleServer : Digest :=
  ⟨[0x55, 0x15, 0x4f, 0x42, 0x06, 0x5e, 0xa5, 0xa1, 0xbe, 0xa0, 0x54, 0x63, 0x82, 0x6b, 0xe2, 0x68,
    0x4e, 0xb9, 0x2d, 0xf9, 0x2c, 0x10, 0x00, 0x27, 0xaa, 0xba, 0xae, 0x57, 0xca, 0x55, 0x42, 0x07],
    rfl⟩

/-- A lease to remove one file, signed by the sample server. -/
def sampleLease : ActionLease where
  grantId := List.Vector.replicate 16 7
  doorFpr := List.Vector.replicate 32 9
  kind := .treeRemove
  args := .treeRemove "src/old/a.rs"
  nonce := List.Vector.replicate 16 5
  issuedAt := 100
  expiresAt := 130
  seq := 1
  signature :=
    ⟨[0xbb, 0x32, 0xd1, 0x29, 0xfc, 0xde, 0xe9, 0x38, 0x39, 0x4a, 0x3f, 0x6b, 0xd0, 0x69, 0x92, 0x69,
      0x35, 0x7b, 0x71, 0x90, 0x1b, 0x52, 0xf6, 0x6c, 0x1e, 0x0d, 0x71, 0xdc, 0x8f, 0x1c, 0x48, 0xb1,
      0x7d, 0x03, 0x2e, 0xeb, 0xc2, 0xf2, 0x71, 0x83, 0xde, 0xf0, 0xf6, 0xd9, 0x95, 0x84, 0x89, 0xe9,
      0x6e, 0x04, 0x21, 0x12, 0x97, 0x13, 0xfe, 0xcc, 0xef, 0x89, 0x43, 0xb4, 0x12, 0x91, 0xb5, 0x01],
      rfl⟩

/-- The request behind the sample lease. -/
def sampleAsk : ActionRequest :=
  ⟨sampleLease.grantId, sampleLease.doorFpr, sampleLease.kind, sampleLease.args, sampleLease.nonce,
    "cleanup"⟩

/-- Ed25519 as far as the sample lease goes. -/
def leaseEd25519 : Ed25519 where
  VerifyingKey := Digest
  fromBytes := some
  verifyStrict key message signature := decide (
    key = sampleServer ∧ signature = sampleLease.signature ∧
      (leaseBody sampleLease).map (fun body ↦ (leaseTranscript body).asBytes) = .ok message)

theorem verifyStrict_leaseEd25519 {key : Digest} {message : List UInt8} {signature : Signature} :
    leaseEd25519.verifyStrict key message signature = true ↔
      key = sampleServer ∧ signature = sampleLease.signature ∧
        (leaseBody sampleLease).map (fun body ↦ (leaseTranscript body).asBytes) = .ok message :=
  decide_eq_true_iff

/-- The removal of a directory is approved, written and read on the way to the server. -/
theorem approved_args_reach_server_sampleLease :
    argsWithin (Agent.removeRule "src/old" 2 false) sampleLease.args = .ok () ∧
      (∃ bytes, encodeRequest sampleAsk = .ok bytes ∧ decodeRequest bytes = .ok sampleAsk) ∧
      ∃ body, leaseBody sampleLease = .ok body ∧
        decodeLease leaseEd25519 (sampleLease.signature.toList ++ body) sampleServer =
          .ok sampleLease := by
  have hwithin : argsWithin (Agent.removeRule "src/old" 2 false) sampleLease.args = .ok () := by
    decide +kernel
  obtain ⟨-, hask, hlease⟩ := approved_args_reach_server leaseEd25519
    (by decide +kernel : checkRuleShape (Agent.removeRule "src/old" 2 false) = .ok ()) hwithin
  obtain ⟨bytes, hbytes, hread, -⟩ := hask sampleAsk rfl rfl (by decide +kernel)
  obtain ⟨body, hbody, -, hopen⟩ := hlease sampleLease rfl rfl (by decide) (by decide)
  refine ⟨hwithin, ⟨bytes, hbytes, hread⟩, body, hbody, hopen sampleServer ?_⟩
  refine (verify_eq_ok_iff leaseEd25519).mpr ⟨sampleServer, rfl, ?_⟩
  refine verifyStrict_leaseEd25519.mpr ⟨rfl, rfl, ?_⟩
  rw [hbody]
  rfl

end OpenCrate.Protocol.Action
