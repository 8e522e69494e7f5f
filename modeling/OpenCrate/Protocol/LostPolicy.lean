import OpenCrate.Protocol.Lease

/-!
# Leases that have lost fields

A lease names its version, and the version tells which optional fields it has. A lease of version 2 that
has lost its server policy is noticed by that. In version 3 the policy is optional, and its loss is not:
whatever else is kept, the rest of the lease is read as one without a policy (`lost_policy_iff`).

What is left of a lease after some of its fields were dropped is read like the whole, with the slots of
those fields empty (`decode_kept`).
-/

namespace OpenCrate.Protocol.Lease

open OpenCrate.Format OpenCrate.Crypto
open Except (refuseIf okOr)

/-! ### Dropping fields -/

/-- The reading with the slots of some tags only. -/
def Reading.only (keep : UInt16 → Bool) (acc : Reading) : Reading where
  version := if keep Tag.version then acc.version else none
  fileId := if keep Tag.fileId then acc.fileId else none
  deviceFpr := if keep Tag.deviceFpr then acc.deviceFpr else none
  policyHash := if keep Tag.policyHash then acc.policyHash else none
  seq := if keep Tag.seq then acc.seq else none
  epoch := if keep Tag.epoch then acc.epoch else none
  issuedAt := if keep Tag.issuedAt then acc.issuedAt else none
  expiresAt := if keep Tag.expiresAt then acc.expiresAt else none
  status := if keep Tag.status then acc.status else none
  opensRemaining := if keep Tag.opensRemaining then acc.opensRemaining else none
  tpmClock := if keep Tag.tpmClock then acc.tpmClock else none
  serverPolicy := if keep Tag.serverPolicy then acc.serverPolicy else none
  attested := if keep Tag.attested then acc.attested else none

/-- A field changes the slot of its tag, and does not look at the others. -/
theorem only_decodeStep (keep : UInt16 → Bool) {acc acc' : Reading} {p : UInt16 × List UInt8}
    (hknown : p.1 ∈ tags) (h : readField decodeStep acc p = .ok acc') :
    if keep p.1 then readField decodeStep (acc.only keep) p = .ok (acc'.only keep)
    else acc'.only keep = acc.only keep := by
  obtain ⟨tag, value⟩ := p
  simp only [tags, List.mem_cons, List.not_mem_nil, or_false] at hknown
  rcases hknown with rfl | rfl | rfl | rfl | rfl | rfl | rfl | rfl | rfl | rfl | rfl | rfl | rfl
  all_goals
    obtain ⟨v, hv, rfl⟩ := Except.map_eq_ok_iff.1 h
    split_ifs with hkeep
    · simp [readField, decodeStep, hv, Reading.only, Tag.version, Tag.fileId, Tag.deviceFpr,
        Tag.policyHash, Tag.seq, Tag.epoch, Tag.issuedAt, Tag.expiresAt, Tag.status, Tag.opensRemaining,
        Tag.tpmClock, Tag.serverPolicy, Tag.attested, hkeep]
    · simp [Reading.only, Tag.version, Tag.fileId, Tag.deviceFpr,
        Tag.policyHash, Tag.seq, Tag.epoch, Tag.issuedAt, Tag.expiresAt, Tag.status, Tag.opensRemaining,
        Tag.tpmClock, Tag.serverPolicy, Tag.attested, hkeep]

/-- Only known tags are written. -/
theorem mem_tags_of_mem_contents {lease : Lease} {policy : Option (List UInt8)} :
    ∀ p ∈ lease.contents policy, p.1 ∈ tags := by
  simp only [contents, commonContents, List.forall_mem_append, List.forall_mem_cons,
    forall_mem_optField]
  simp [tags, Tag.version, Tag.fileId, Tag.deviceFpr, Tag.policyHash, Tag.seq, Tag.epoch,
    Tag.issuedAt, Tag.expiresAt, Tag.status, Tag.opensRemaining, Tag.tpmClock, Tag.serverPolicy,
    Tag.attested]

/-- Some of the fields of a lease are read as the slots of their tags. -/
theorem decode_kept {lease : Lease} {bytes : List UInt8} {l kept : Contents}
    (h : lease.encode = .ok bytes) (henc : Encodes bytes l) (hsub : kept.Sublist l) :
    decode (encodeContents kept) =
      ((Reading.of lease.normal).only fun tag ↦ tag ∈ kept.map Prod.fst).lease := by
  obtain ⟨policy, hpolicy, hcontents⟩ := encode_eq_ok_iff.1 h
  obtain rfl := henc.unique hcontents
  have hnodup : ((lease.contents policy).map Prod.fst).Nodup := henc.increasing.imp fun hlt ↦ hlt.ne
  have hread := foldlM_filter_only _ (Reading.only fun tag ↦ tag ∈ kept.map Prod.fst)
    (fun p hp _ _ ↦ only_decodeStep _ (mem_tags_of_mem_contents p hp)) (foldlM_contents hpolicy)
  rw [← eq_filter_of_sublist hsub hnodup] at hread
  rw [decode, recordStep_decodeStep.foldFields_eq (henc.of_sublist hsub)]
  have hempty : Reading.only (fun tag ↦ decide (tag ∈ kept.map Prod.fst)) {} = {} := by
    simp [Reading.only]
  rw [hempty] at hread
  rw [hread, Except.ok_bind]

/-! ### Without the server policy -/

/-- The fields that no attested lease is read without. -/
def attestedTags : List UInt16 := [1, 2, 3, 4, 5, 6, 7, 8, 9, 10, 13]

/-- The lease without its server policy, and with its clock or without. -/
def withoutPolicy (lease : Lease) (clock : Bool) : Lease :=
  { lease with
    facts := { lease.facts with
      serverPolicy := none
      tpmClock := if clock then lease.facts.tpmClock else none } }

/-- The version in the slots is that of a lease with a policy: without one it has to be version 3. -/
theorem checkVersion_lost {lease : Lease} (hpolicy : lease.facts.serverPolicy.isSome) {attested : Bool} :
    checkVersion lease.versionOf false attested = .ok () ↔
      lease.facts.attested.isSome ∧ attested = true := by
  rw [checkVersion_eq_ok_iff, versionOf, if_pos hpolicy]
  cases lease.facts.attested.isSome <;> cases attested <;> decide

/-- **Without the policy of the server a lease is read only if its version does not say that it has one**, which
an attested lease does not. -/
theorem lease_only_eq_ok_iff {lease read : Lease} {keep : UInt16 → Bool}
    (hpolicy : lease.facts.serverPolicy.isSome) (hlost : keep Tag.serverPolicy = false) :
    ((Reading.of lease).only keep).lease = .ok read ↔
      lease.facts.attested.isSome ∧ (∀ tag ∈ attestedTags, keep tag = true) ∧
        read = lease.withoutPolicy (keep Tag.tpmClock) := by
  -- the attestation is read only if its record was kept
  have hattested : (if keep Tag.attested then lease.facts.attested else none).isSome = true ↔
      keep Tag.attested = true ∧ lease.facts.attested.isSome := by
    cases keep Tag.attested <;> simp
  simp only [Reading.lease, Reading.only, Reading.of, Reading.common, Except.bind_eq_ok_iff,
    Except.okOr_eq_ok_iff, Option.ite_none_right_eq_some, Option.some.injEq, hlost, Bool.false_eq_true,
    if_false, Option.isSome_none]
  constructor
  · rintro ⟨_, ⟨hversion, rfl⟩, ⟨⟩, hcheck, _, ⟨hfile, rfl⟩, _, ⟨hdevice, rfl⟩, _, ⟨hhash, rfl⟩,
      _, ⟨hseq, rfl⟩, _, ⟨hepoch, rfl⟩, _, ⟨hissued, rfl⟩, _, ⟨hexpires, rfl⟩, _, ⟨hopens, rfl⟩,
      _, ⟨hstatus, rfl⟩, hread⟩
    obtain ⟨hsome, hkept⟩ := (checkVersion_lost hpolicy).1 hcheck
    obtain ⟨hkept, -⟩ := hattested.1 hkept
    refine ⟨hsome, ?_, ?_⟩
    · simp only [attestedTags, List.forall_mem_cons]
      exact ⟨hversion, hfile, hdevice, hhash, hseq, hepoch, hissued, hexpires, hstatus, hopens, hkept,
        List.forall_mem_nil _⟩
    · rw [← Except.ok.inj hread, withoutPolicy, if_pos hkept]
  · rintro ⟨hsome, hkept, rfl⟩
    simp only [attestedTags, List.forall_mem_cons] at hkept
    obtain ⟨hversion, hfile, hdevice, hhash, hseq, hepoch, hissued, hexpires, hstatus, hopens, hkept, -⟩ :=
      hkept
    refine ⟨_, ⟨hversion, rfl⟩, (), (checkVersion_lost hpolicy).2 ⟨hsome, hattested.2 ⟨hkept, hsome⟩⟩,
      _, ⟨hfile, rfl⟩, _, ⟨hdevice, rfl⟩, _, ⟨hhash, rfl⟩, _, ⟨hseq, rfl⟩, _, ⟨hepoch, rfl⟩,
      _, ⟨hissued, rfl⟩, _, ⟨hexpires, rfl⟩, _, ⟨hopens, rfl⟩, _, ⟨hstatus, rfl⟩, ?_⟩
    rw [withoutPolicy, if_pos (show keep Tag.attested = true from hkept)]

/-- **A lost server policy.** A lease without attestation is then not read, whatever else is kept. A lease
with attestation is read as the same one without the policy, and without its clock if that was dropped
too, exactly if its other fields are all there. -/
theorem lost_policy_iff {lease : Lease} {bytes : List UInt8} {l kept : Contents}
    (h : lease.encode = .ok bytes) (hpolicy : lease.facts.serverPolicy.isSome) (henc : Encodes bytes l)
    (hsub : kept.Sublist l) (hlost : Tag.serverPolicy ∉ kept.map Prod.fst) :
    (lease.facts.attested = none → ∃ e, decode (encodeContents kept) = .error e) ∧
      (lease.facts.attested.isSome → ∀ read,
        decode (encodeContents kept) = .ok read ↔
          (∀ tag ∈ attestedTags, tag ∈ kept.map Prod.fst) ∧
            read = lease.withoutPolicy (Tag.tpmClock ∈ kept.map Prod.fst)) := by
  have hread : ∀ read, decode (encodeContents kept) = .ok read ↔
      lease.facts.attested.isSome ∧ (∀ tag ∈ attestedTags, tag ∈ kept.map Prod.fst) ∧
        read = lease.withoutPolicy (Tag.tpmClock ∈ kept.map Prod.fst) := by
    intro read
    have hnormal : lease.normal.facts.serverPolicy.isSome := by rwa [normal, Option.isSome_map]
    rw [decode_kept h henc hsub, lease_only_eq_ok_iff hnormal (decide_eq_false hlost)]
    simp only [decide_eq_true_eq]
    rfl
  refine ⟨fun hnone ↦ ?_, fun hsome read ↦ ?_⟩
  · rcases hdecode : decode (encodeContents kept) with e | read
    · exact ⟨e, rfl⟩
    · obtain ⟨hsome, -⟩ := (hread read).1 hdecode
      simp [hnone] at hsome
  · rw [hread read, and_iff_right hsome]

/-! ### A lease with attestation -/

/-- A lease under which the server lets nothing be done. -/
def profiledLease : Lease where
  fileId := List.Vector.replicate 16 1
  facts :=
    { deviceFingerprint := List.Vector.replicate 32 2
      policyHash := List.Vector.replicate 32 3
      seq := 1
      epoch := 1
      issuedAt := 1
      expiresAt := 2
      opensRemaining := none
      revoked := false
      serverPolicy := some .denyAll
      attested := some .vendorCertificate
      tpmClock := none }

def profiledContents : Contents :=
  profiledLease.contents (PolicyCodec.encode containerVersion .denyAll).toOption

/-- Its fields but the server policy. -/
def profiledKept : Contents := profiledContents.filter fun p ↦ p.1 ≠ Tag.serverPolicy

theorem encode_profiledLease : profiledLease.encode = .ok (encodeContents profiledContents) := by
  decide +kernel

theorem encodes_profiledContents : Encodes (encodeContents profiledContents) profiledContents :=
  Encodes.of_forall (by decide +kernel) (by decide +kernel)

/-- The policy of the sample lease is lost, while its attestation stays. -/
theorem lost_policy_iff_profiledLease :
    profiledLease.encode = .ok (encodeContents profiledContents) ∧
      ((∀ tag ∈ attestedTags, tag ∈ profiledKept.map Prod.fst) ∧
        profiledLease.withoutPolicy false = profiledLease.withoutPolicy
          (Tag.tpmClock ∈ profiledKept.map Prod.fst)) ∧
      decode (encodeContents profiledKept) = .ok (profiledLease.withoutPolicy false) := by
  have hall : attestedTags.all fun tag ↦ tag ∈ profiledKept.map Prod.fst := by decide +kernel
  have htags : ∀ tag ∈ attestedTags, tag ∈ profiledKept.map Prod.fst := fun tag htag ↦
    of_decide_eq_true (List.all_eq_true.1 hall tag htag)
  have hclock : profiledLease.withoutPolicy false = profiledLease.withoutPolicy
      (Tag.tpmClock ∈ profiledKept.map Prod.fst) := by decide +kernel
  exact ⟨encode_profiledLease, ⟨htags, hclock⟩,
    ((lost_policy_iff encode_profiledLease (by decide) encodes_profiledContents List.filter_sublist
      (by decide +kernel)).2 (by decide) _).2 ⟨htags, hclock⟩⟩

/-- The server policy is lost, and what is left is read: as a lease without one. -/
theorem lost_policy_unnoticed :
    ¬∀ (lease : Lease) (bytes : List UInt8) (l kept : Contents), lease.encode = .ok bytes →
      lease.facts.serverPolicy.isSome → Encodes bytes l → kept.Sublist l →
        Tag.serverPolicy ∉ kept.map Prod.fst → ∃ e, decode (encodeContents kept) = .error e := by
  intro h
  obtain ⟨e, he⟩ := h profiledLease _ _ profiledKept encode_profiledLease (by decide)
    encodes_profiledContents List.filter_sublist (by decide +kernel)
  have hread : decode (encodeContents profiledKept) = .ok (profiledLease.withoutPolicy false) := by
    decide +kernel
  exact absurd (hread.symm.trans he) Except.ok_ne_error

end OpenCrate.Protocol.Lease
