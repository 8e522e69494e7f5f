import OpenCrate.Protocol.Standing

/-!
# Standings are canonical

Every parser of a field of a standing accepts exactly what is written for one value. From this the loop
over the fields is inverted slot by slot (`slotStep_decodeStep`): a document without unknown fields is read
if and only if its fields are the ones written for the values of the slots (`decode_eq_ok_iff`).

What was written is read back exactly for a standing with achievable rosters and named heirs (`Sound`),
and what was read is written again byte for byte (`decode_encode_canonical`).
-/

namespace OpenCrate.Protocol

open OpenCrate.Format OpenCrate.Crypto
open Except (refuseIf okOr)

namespace Standing

/-! ### Keys -/

/-- Keys are split at their length, so that a list of them has one spelling. -/
theorem splitKeys_eq_ok_iff {tag : UInt16} {value : List UInt8} {keys : List Digest} :
    splitKeys tag value = .ok keys ↔ value = flatten keys := by
  rw [splitKeys, Except.okOr_eq_ok_iff, chunksExact?_eq_some_iff (by decide)]
  rfl

/-- The bytes of a list of keys say how many there are. -/
theorem flatten_injective : Function.Injective flatten := by
  intro a b h
  have hread : splitKeys 0 (flatten a) = .ok b := splitKeys_eq_ok_iff.mpr h
  have hown : splitKeys 0 (flatten a) = .ok a := splitKeys_eq_ok_iff.mpr rfl
  exact Except.ok.inj (hown.symm.trans hread)

theorem flatten_eq_nil_iff {keys : List Digest} : flatten keys = [] ↔ keys = [] :=
  ⟨@flatten_injective keys [], fun h ↦ h ▸ rfl⟩

/-- A field of keys is never empty: no keys are written by leaving the field out. -/
theorem nonemptyKeys_eq_ok_iff {tag : UInt16} (value : List UInt8) (keys : List Digest) :
    nonemptyKeys tag value = .ok keys ↔ value = flatten keys ∧ keys ≠ [] := by
  rw [nonemptyKeys, Except.check_bind_eq_ok_iff, Except.refuseIf_eq_ok_iff, splitKeys_eq_ok_iff,
    and_comm]
  refine and_congr_right ?_
  rintro rfl
  rw [flatten_eq_nil_iff]

/-! ### Votes -/

theorem length_voteBytes (vote : Vote) : (voteBytes vote).length = voteLen := by
  simp only [voteBytes, List.length_append, List.Vector.toList_length, length_toLeBytes,
    List.length_singleton]
  rfl

/-- The last byte of a vote is a flag, and no other byte is read as one. -/
theorem decodeApprove_eq_ok_iff {chunk : List UInt8} {approve : Bool} :
    decodeApprove chunk = .ok approve ↔ chunk[64]? = some approve.toUInt8 := by
  rw [decodeApprove]
  split <;> cases approve <;> simp_all [Bool.toUInt8]

/-- The record of a vote is read off its parts. -/
theorem decodeVote_eq_ok_iff {chunk : List UInt8} {vote : Vote} (hlen : chunk.length = voteLen) :
    decodeVote chunk = .ok vote ↔ chunk = voteBytes vote := by
  simp only [decodeVote, Except.bind_eq_ok_iff, Except.okOr_eq_ok_iff, Option.bind_eq_some_iff,
    toVector?_eq_some_iff, ofLeBytes?_eq_some_iff, decodeApprove_eq_ok_iff, Except.ok.injEq]
  constructor
  · rintro ⟨deviceFpr, ⟨_, hfpr, rfl⟩, voter, ⟨_, hvoter, rfl⟩, approve, happrove, at_, ⟨_, hat, rfl⟩, rfl⟩
    have hrest := (drop_eq_append_of_slice? hat).1
    rw [List.drop_eq_nil_iff.mpr (show chunk.length ≤ 73 from hlen.le), List.append_nil] at hrest
    have happroved := drop_eq_cons_iff.mpr ⟨happrove, rfl⟩
    rw [← List.drop_zero (l := chunk), (drop_eq_append_of_slice? hfpr).1,
      (drop_eq_append_of_slice? hvoter).1, happroved, hrest, voteBytes]
    simp only [List.append_assoc, List.singleton_append]
  · rintro rfl
    have hle : 65 ≤ (voteBytes vote).length := by rw [hlen]; decide
    have h0 : (voteBytes vote).drop 0 =
        vote.deviceFpr.toList ++ (vote.voter.toList ++ (vote.approve.toUInt8 :: toLeBytes vote.at_)) := by
      simp only [voteBytes, List.drop_zero, List.append_assoc, List.singleton_append]
    have h32 : (voteBytes vote).drop 32 =
        vote.voter.toList ++ (vote.approve.toUInt8 :: toLeBytes vote.at_) := by
      rw [← List.drop_zero (l := voteBytes vote), h0, List.drop_left' vote.deviceFpr.toList_length]
    have h64 : (voteBytes vote).drop 64 = vote.approve.toUInt8 :: toLeBytes vote.at_ := by
      rw [show 64 = 32 + 32 from rfl, ← List.drop_drop, h32, List.drop_left' vote.voter.toList_length]
    obtain ⟨happrove, h65⟩ := drop_eq_cons_iff.mp h64
    have hfpr := slice?_of_drop h0 (Nat.zero_le _)
    have hvoter := slice?_of_drop h32 (by omega)
    have hat := slice?_of_drop (h65.symm.trans (List.append_nil _).symm) hle
    rw [List.Vector.toList_length] at hfpr hvoter
    rw [length_toLeBytes] at hat
    exact ⟨_, ⟨_, hfpr, rfl⟩, _, ⟨_, hvoter, rfl⟩, _, happrove, _, ⟨_, hat, rfl⟩, rfl⟩

/-- Votes are read from the pieces that they are written to, one by one. -/
theorem mapM_decodeVote_eq_ok_iff {chunks : List (List.Vector UInt8 voteLen)} {votes : List Vote} :
    (chunks.mapM fun chunk ↦ decodeVote chunk.toList) = .ok votes ↔
      chunks.map List.Vector.toList = votes.map voteBytes := by
  rw [Except.mapM_eq_ok_iff, ← List.forall₂_eq_eq_eq, List.forall₂_map_left_iff,
    List.forall₂_map_right_iff]
  simp only [decodeVote_eq_ok_iff (List.Vector.toList_length _)]

/-- The record of a vote with its length. -/
def voteVector (vote : Vote) : List.Vector UInt8 voteLen := ⟨voteBytes vote, length_voteBytes vote⟩

theorem map_voteVector (votes : List Vote) :
    (votes.map voteVector).map List.Vector.toList = votes.map voteBytes := by
  rw [List.map_map]
  rfl

/-- **A field of votes is read as the votes that were written**, of which there is at least one. -/
theorem decodeVotes_eq_ok_iff (value : List UInt8) (votes : List Vote) :
    decodeVotes value = .ok votes ↔ value = votes.flatMap voteBytes ∧ votes ≠ [] := by
  simp only [decodeVotes, Except.bind_eq_ok_iff, Except.refuseIf_eq_ok_iff, Except.okOr_eq_ok_iff,
    chunksExact?_eq_some_iff (n := voteLen) (by decide), mapM_decodeVote_eq_ok_iff]
  constructor
  · rintro ⟨⟨⟩, hne, chunks, rfl, hvotes⟩
    rw [List.flatMap_def, hvotes, ← List.flatMap_def] at hne ⊢
    refine ⟨rfl, ?_⟩
    rintro rfl
    exact hne rfl
  · rintro ⟨rfl, hne⟩
    refine ⟨(), ?_, votes.map voteVector, ?_, map_voteVector votes⟩
    · obtain ⟨vote, rest, rfl⟩ := List.exists_cons_of_ne_nil hne
      refine List.ne_nil_of_length_pos ?_
      rw [List.flatMap_cons, List.length_append, length_voteBytes]
      exact Nat.add_pos_left (by decide) _
    · rw [List.flatMap_def, List.flatMap_def, map_voteVector]

/-! ### Proposals -/

/-- The record of a proposal. -/
def proposalBytes (proposal : ProposalStanding) : List UInt8 :=
  proposal.intent.toList ++ (proposal.kind :: (toLeBytes proposal.at_ ++ (proposal.need ::
    (UInt8.ofNat proposal.signers.length :: (flatten proposal.signers ++ proposal.body)))))

/-- A proposal that can be written: its signers and its record can be counted. -/
structure ProposalStanding.Fits (proposal : ProposalStanding) : Prop where
  signers : proposal.signers.length < 2 ^ 8
  record : (proposalBytes proposal).length < 2 ^ 32

theorem length_flatten (keys : List Digest) : (flatten keys).length = keys.length * 32 :=
  length_flatMap_toList keys

/-- The record of a proposal is read off its parts. -/
theorem decodeProposal_eq_ok_iff {body : List UInt8} {proposal : ProposalStanding} :
    decodeProposal body = .ok proposal ↔
      proposal.signers.length < 2 ^ 8 ∧ body = proposalBytes proposal := by
  simp only [decodeProposal, Except.bind_eq_ok_iff, Except.okOr_eq_ok_iff, Option.bind_eq_some_iff,
    toVector?_eq_some_iff, ofLeBytes?_eq_some_iff, splitKeys_eq_ok_iff, Except.ok.injEq]
  constructor
  · rintro ⟨count, hcount, signers, hsigners, orderBody, hbody, intent, ⟨_, hintent, rfl⟩, kind, hkind,
      at_, ⟨_, hat, rfl⟩, need, hneed, keys, rfl, rfl⟩
    obtain ⟨hsigners, hlen⟩ := drop_eq_append_of_slice? hsigners
    have hkeys : keys.length = count.toNat := by
      rw [length_flatten] at hlen
      omega
    have hrest := (drop_eq_append_of_slice? hbody).1
    rw [List.drop_length, List.append_nil] at hrest
    refine ⟨hkeys.trans_lt count.toNat_lt, ?_⟩
    rw [← List.drop_zero (l := body), (drop_eq_append_of_slice? hintent).1,
      drop_eq_cons_iff.mpr ⟨hkind, rfl⟩, (drop_eq_append_of_slice? hat).1,
      drop_eq_cons_iff.mpr ⟨hneed, rfl⟩, drop_eq_cons_iff.mpr ⟨hcount, rfl⟩, hsigners, hrest,
      proposalBytes, hkeys, UInt8.ofNat_toNat]
  · rintro ⟨hcount, rfl⟩
    have h0 : (proposalBytes proposal).drop 0 = proposalBytes proposal := List.drop_zero
    have hlength : (proposalBytes proposal).length =
        43 + proposal.signers.length * 32 + proposal.body.length := by
      simp only [proposalBytes, List.length_append, List.length_cons, List.Vector.toList_length,
        length_toLeBytes, length_flatten, LeInt.width_int64]
      omega
    have h32 : (proposalBytes proposal).drop 32 = proposal.kind :: (toLeBytes proposal.at_ ++
        (proposal.need :: (UInt8.ofNat proposal.signers.length ::
          (flatten proposal.signers ++ proposal.body)))) :=
      List.drop_left' proposal.intent.toList_length
    obtain ⟨hkind, h33⟩ := drop_eq_cons_iff.mp h32
    have h41 : (proposalBytes proposal).drop 41 = proposal.need ::
        (UInt8.ofNat proposal.signers.length :: (flatten proposal.signers ++ proposal.body)) := by
      rw [show 41 = 33 + 8 from rfl, ← List.drop_drop, ← h33]
      exact List.drop_left' (length_toLeBytes _)
    obtain ⟨hneed, h42⟩ := drop_eq_cons_iff.mp h41
    obtain ⟨hsigned, h43⟩ := drop_eq_cons_iff.mp h42.symm
    have hnat : (UInt8.ofNat proposal.signers.length).toNat = proposal.signers.length :=
      UInt8.toNat_ofNat_of_lt' hcount
    have hend : (proposalBytes proposal).drop (43 + proposal.signers.length * 32) = proposal.body := by
      rw [← List.drop_drop, ← h43]
      exact List.drop_left' (length_flatten _)
    have hintent := slice?_of_drop (h0.trans (by rw [proposalBytes])) (Nat.zero_le _)
    have hat := slice?_of_drop h33.symm (by omega)
    have hsigners := slice?_of_drop h43.symm (by omega)
    have hbody := slice?_of_drop (hend.trans (List.append_nil _).symm) (by omega)
    rw [List.Vector.toList_length] at hintent
    rw [length_toLeBytes] at hat
    rw [length_flatten] at hsigners
    rw [← hlength] at hbody
    exact ⟨_, hsigned, _, by rwa [hnat], _, by rwa [hnat], _, ⟨_, hintent, rfl⟩, _, hkind, _,
      ⟨_, hat, rfl⟩, _, hneed, _, rfl, rfl⟩

/-- A stream is the frames of the records of its proposals. -/
theorem splitProposals_eq_ok_iff {rest : List UInt8} {out proposals : List ProposalStanding} :
    splitProposals rest out = .ok proposals ↔ ∃ more, proposals = out ++ more ∧
      (∀ p ∈ more, p.Fits) ∧ rest = frames (more.map proposalBytes) := by
  induction rest, out using splitProposals.induct generalizing proposals with
  | case1 out =>
    rw [splitProposals, dif_pos rfl, Except.ok.injEq]
    constructor
    · rintro rfl
      exact ⟨[], (List.append_nil _).symm, nofun, rfl⟩
    · rintro ⟨more, rfl, -, hmore⟩
      rw [List.map_eq_nil_iff.mp (frames_eq_nil_iff.mp hmore.symm), List.append_nil]
  | case2 rest out hne hlen =>
    rw [splitProposals, dif_neg hne]
    simp only [hlen]
    refine ⟨nofun, ?_⟩
    rintro ⟨more, -, hfits, rfl⟩
    cases more with
    | nil => exact absurd rfl hne
    | cons p more =>
      obtain ⟨len, hlen', -⟩ := exists_frame_iff.mpr ⟨(hfits p List.mem_cons_self).record, frames_cons _ _⟩
      exact absurd (hlen.symm.trans hlen') nofun
  | case3 rest out hne len hlen hitem =>
    rw [splitProposals, dif_neg hne]
    simp only [hlen, hitem]
    refine ⟨nofun, ?_⟩
    rintro ⟨more, -, hfits, rfl⟩
    cases more with
    | nil => exact absurd rfl hne
    | cons p more =>
      obtain ⟨len', hlen', hitem', -⟩ :=
        exists_frame_iff.mpr ⟨(hfits p List.mem_cons_self).record, frames_cons _ _⟩
      obtain rfl := Option.some.inj (hlen.symm.trans hlen')
      exact absurd (hitem.symm.trans hitem') nofun
  | case4 rest out hne len hlen body hitem ih =>
    rw [splitProposals, dif_neg hne]
    simp only [hlen, hitem, Except.bind_eq_ok_iff, decodeProposal_eq_ok_iff, ih]
    obtain ⟨hshort, hrest⟩ := exists_frame_iff.mp ⟨len, hlen, hitem, rfl⟩
    constructor
    · rintro ⟨p, ⟨hsigners, rfl⟩, more, rfl, hfits, htail⟩
      refine ⟨p :: more, by rw [List.append_assoc, List.singleton_append], ?_, ?_⟩
      · exact List.forall_mem_cons.mpr ⟨⟨hsigners, hshort⟩, hfits⟩
      · rw [List.map_cons, frames_cons, ← htail]
        exact hrest
    · rintro ⟨more, rfl, hfits, hmore⟩
      cases more with
      | nil => exact absurd hmore hne
      | cons p more =>
        obtain ⟨hp, hfits⟩ := List.forall_mem_cons.mp hfits
        rw [List.map_cons, frames_cons] at hmore
        obtain ⟨hbody, htail⟩ := frame_append_inj hshort hp.record (hrest.symm.trans hmore)
        refine ⟨p, ⟨hp.signers, hbody⟩, more, ?_, hfits, htail⟩
        rw [List.append_assoc, List.singleton_append]

/-- **A field of proposals is read as the proposals that were written**: every frame is one of them, and all of
them fit. -/
theorem decodeProposals_eq_ok_iff (value : List UInt8) (proposals : List ProposalStanding) :
    decodeProposals value = .ok proposals ↔ value = frames (proposals.map proposalBytes) ∧
      proposals ≠ [] ∧ ∀ p ∈ proposals, p.Fits := by
  rw [decodeProposals, Except.check_bind_eq_ok_iff, Except.refuseIf_eq_ok_iff, splitProposals_eq_ok_iff]
  constructor
  · rintro ⟨hne, more, rfl, hfits, rfl⟩
    refine ⟨rfl, ?_, hfits⟩
    rintro h
    exact hne (by rw [h]; rfl)
  · rintro ⟨rfl, hne, hfits⟩
    refine ⟨?_, proposals, rfl, hfits, rfl⟩
    rw [frames_eq_nil_iff, List.map_eq_nil_iff]
    exact hne

/-- A proposal that fits is written behind the others. -/
theorem encodeProposal_eq_ok_iff {flat bytes : List UInt8} {proposal : ProposalStanding} :
    encodeProposal flat proposal = .ok bytes ↔
      proposal.Fits ∧ bytes = flat ++ frame (proposalBytes proposal) := by
  have hrecord (count : UInt8) : proposal.intent.toList ++ [proposal.kind] ++ toLeBytes proposal.at_ ++
      [proposal.need] ++ [count] ++ flatten proposal.signers ++ proposal.body =
        proposal.intent.toList ++ (proposal.kind :: (toLeBytes proposal.at_ ++ (proposal.need ::
          (count :: (flatten proposal.signers ++ proposal.body))))) := by
    simp only [List.append_assoc, List.cons_append, List.nil_append]
  simp only [encodeProposal, Except.bind_eq_ok_iff, Except.okOr_eq_ok_iff, UInt8.tryFrom_eq_some_iff,
    UInt32.tryFrom_eq_some_iff, Except.ok.injEq, hrecord]
  constructor
  · rintro ⟨count, hcount, len, hlen, rfl⟩
    have hbytes : proposalBytes proposal = proposal.intent.toList ++ (proposal.kind ::
        (toLeBytes proposal.at_ ++ (proposal.need ::
          (count :: (flatten proposal.signers ++ proposal.body))))) := by
      rw [proposalBytes, ← hcount, UInt8.ofNat_toNat]
    rw [← hbytes] at hlen ⊢
    refine ⟨⟨hcount ▸ count.toNat_lt, hlen ▸ len.toNat_lt⟩, ?_⟩
    rw [frame, ← hlen, UInt32.ofNat_toNat, List.append_assoc]
  · rintro ⟨⟨hsigners, hlen⟩, rfl⟩
    refine ⟨_, UInt8.toNat_ofNat_of_lt' hsigners, _, UInt32.toNat_ofNat_of_lt' hlen, ?_⟩
    rw [frame, List.append_assoc]
    rfl

/-- The loop of the writer over the proposals, from any point on. -/
theorem foldlM_encodeProposal_eq_ok_iff {flat bytes : List UInt8} {proposals : List ProposalStanding} :
    proposals.foldlM encodeProposal flat = .ok bytes ↔
      (∀ p ∈ proposals, p.Fits) ∧ bytes = flat ++ frames (proposals.map proposalBytes) := by
  induction proposals generalizing flat with
  | nil =>
    rw [Except.foldlM_nil, Except.ok.injEq, List.map_nil, frames, List.flatMap_nil, List.append_nil]
    exact ⟨fun h ↦ ⟨nofun, h.symm⟩, fun h ↦ h.2.symm⟩
  | cons p proposals ih =>
    simp only [List.foldlM_cons, Except.bind_eq_ok_iff, encodeProposal_eq_ok_iff, ih,
      List.forall_mem_cons, List.map_cons, frames_cons]
    constructor
    · rintro ⟨_, ⟨hp, rfl⟩, hfits, rfl⟩
      exact ⟨⟨hp, hfits⟩, List.append_assoc ..⟩
    · rintro ⟨⟨hp, hfits⟩, rfl⟩
      exact ⟨_, ⟨hp, rfl⟩, hfits, (List.append_assoc ..).symm⟩

/-- The field is left out if there are no proposals. -/
theorem encodeProposals_eq_ok_iff {proposals : List ProposalStanding} {value : Option (List UInt8)} :
    encodeProposals proposals = .ok value ↔ (∀ p ∈ proposals, p.Fits) ∧
      value = nonempty proposals (frames (proposals.map proposalBytes)) := by
  rw [encodeProposals, nonempty]
  split_ifs with h
  · rw [h, Except.ok.injEq]
    exact ⟨fun hvalue ↦ ⟨nofun, hvalue.symm⟩, fun hvalue ↦ hvalue.2.symm⟩
  · simp only [Except.map_eq_ok_iff, foldlM_encodeProposal_eq_ok_iff, List.nil_append]
    constructor
    · rintro ⟨_, ⟨hfits, rfl⟩, rfl⟩
      exact ⟨hfits, rfl⟩
    · rintro ⟨hfits, rfl⟩
      exact ⟨_, ⟨hfits, rfl⟩, rfl⟩

/-! ### The loop over the fields -/

/-- The tags of a standing. -/
def tags : List UInt16 := [1, 2, 3, 4, 5, 6, 7, 8, 9, 10, 11, 12, 13, 14, 15, 16, 17]

/-- The loop of the reader is one over records, with these tags. -/
theorem recordStep_decodeStep : RecordStep tags decodeStep where
  span_free _ _ _ _ _ := rfl
  skips acc tag value span h := by
    unfold decodeStep
    split <;> first | rfl | simp_all [tags]

/-- What is written for the slot of a tag. -/
def Reading.value (acc : Reading) (tag : UInt16) : Option (List UInt8) :=
  match tag with
  | 1 => acc.fileId.map List.Vector.toList
  | 2 => acc.revoked.map fun revoked ↦ [revoked.toUInt8]
  | 3 => acc.maxDevices.map toLeBytes
  | 4 => acc.maxGrants.map toLeBytes
  | 5 => nonempty acc.coauthors (flatten acc.coauthors)
  | 6 => acc.coauthorThreshold.map fun threshold ↦ [threshold]
  | 7 => nonempty acc.approvers (flatten acc.approvers)
  | 8 => acc.approverThreshold.map fun threshold ↦ [threshold]
  | 9 => acc.heirMode.map fun mode ↦ [mode]
  | 10 => acc.silenceSeconds.map toLeBytes
  | 11 => acc.lastAlive.map toLeBytes
  | 12 => acc.releasedAt.map toLeBytes
  | 13 => acc.deviceFprs.map flatten
  | 14 => nonempty acc.votes (acc.votes.flatMap voteBytes)
  | 15 => nonempty acc.proposals (frames (acc.proposals.map proposalBytes))
  | 16 => if acc.proposalTtl ≠ 0 then some (toLeBytes acc.proposalTtl) else none
  | 17 => if acc.frozen then some [1] else none
  | _ => none

/-- The slots hold what their fields can say. -/
structure Reading.Allowed (acc : Reading) : Prop where
  heirMode : ∀ mode ∈ acc.heirMode, mode = 1 ∨ mode = 2
  deviceFprs : ∀ fprs ∈ acc.deviceFprs, fprs ≠ []
  proposals : ∀ p ∈ acc.proposals, p.Fits

theorem revokedField_eq_ok_iff {f : Field} {revoked : Bool} :
    revokedField f = .ok revoked ↔ f.value = [revoked.toUInt8] := by
  rw [revokedField]
  split <;> cases revoked <;> simp_all [Bool.toUInt8]

/-- A file that is not frozen has no field for it. -/
theorem frozenField_eq_ok_iff {f : Field} {frozen : Bool} :
    frozenField f = .ok frozen ↔ f.value = [1] ∧ frozen = true := by
  rw [frozenField]
  split <;> cases frozen <;> simp_all

/-- The mode of an heir is one of two, since none is written by leaving the field out. -/
theorem heirModeField_eq_ok_iff {f : Field} {mode : UInt8} :
    heirModeField f = .ok mode ↔ f.value = [mode] ∧ (mode = 1 ∨ mode = 2) := by
  rw [heirModeField]
  split
  · simp_all [eq_comm]
  · simp_all [eq_comm]
  · constructor
    · exact nofun
    · rintro ⟨h, rfl | rfl⟩ <;> simp_all

/-- A lifetime of zero is not written. -/
theorem proposalTtlField_eq_ok_iff {f : Field} {ttl : Int64} :
    proposalTtlField f = .ok ttl ↔ f.value = toLeBytes ttl ∧ ttl ≠ 0 := by
  simp only [proposalTtlField, Except.bind_eq_ok_iff, Field.le_eq_ok_iff, Except.refuseIf_eq_ok_iff,
    Except.ok.injEq]
  constructor
  · rintro ⟨_, hvalue, ⟨⟩, hne, rfl⟩
    exact ⟨hvalue, hne⟩
  · rintro ⟨hvalue, hne⟩
    exact ⟨ttl, hvalue, (), hne, rfl⟩

theorem nonempty_eq_none_iff {α : Type} {items : List α} {value : List UInt8} :
    nonempty items value = none ↔ items = [] := by
  rw [nonempty]
  split_ifs with h
  · exact iff_of_true rfl h
  · exact iff_of_false nofun h

/-- What is written has items. -/
theorem nonempty_eq_some_iff {α : Type} {items : List α} {value bytes : List UInt8} :
    nonempty items value = some bytes ↔ items ≠ [] ∧ value = bytes := by
  rw [nonempty]
  split_ifs with h
  · exact iff_of_false nofun fun hne ↦ hne.1 h
  · rw [Option.some.injEq]
    exact (and_iff_right h).symm

/-- A statement about all tags is seventeen statements. -/
theorem forall_mem_tags {P : UInt16 → Prop} :
    (∀ tag ∈ tags, P tag) ↔ P 1 ∧ P 2 ∧ P 3 ∧ P 4 ∧ P 5 ∧ P 6 ∧ P 7 ∧ P 8 ∧ P 9 ∧ P 10 ∧ P 11 ∧ P 12 ∧
      P 13 ∧ P 14 ∧ P 15 ∧ P 16 ∧ P 17 := by
  simp only [tags, List.forall_mem_cons, List.not_mem_nil, IsEmpty.forall_iff, implies_true, and_true]

/-- A field that is read fills the slot of its tag and leaves the other slots. -/
theorem Reading.reads {s s' : Reading} {tag : UInt16} {bytes : List UInt8} (htag : tag ∈ tags)
    (hempty : s.value tag = none) (hs : s.Allowed) (h : readField decodeStep s (tag, bytes) = .ok s') :
    s'.Allowed ∧ ∀ u ∈ tags, s'.value u = if u = tag then some bytes else s.value u := by
  rw [readField, decodeStep] at h
  split at h
  case h_5 heq | h_7 heq =>
    obtain rfl : tag = _ := heq
    obtain ⟨v, hv, rfl⟩ := Except.map_eq_ok_iff.mp h
    obtain ⟨rfl, hne⟩ := (nonemptyKeys_eq_ok_iff bytes v).mp hv
    refine ⟨⟨hs.heirMode, hs.deviceFprs, hs.proposals⟩, forall_mem_tags.mpr ?_⟩
    and_intros
    all_goals first | rfl | exact nonempty_eq_some_iff.mpr ⟨hne, rfl⟩
  case h_9 heq =>
    obtain rfl : tag = _ := heq
    obtain ⟨v, hv, rfl⟩ := Except.map_eq_ok_iff.mp h
    obtain ⟨rfl, hmode⟩ : bytes = [v] ∧ _ := heirModeField_eq_ok_iff.mp hv
    refine ⟨⟨fun _ hv ↦ Option.some.inj hv ▸ hmode, hs.deviceFprs, hs.proposals⟩, forall_mem_tags.mpr ?_⟩
    and_intros
    all_goals rfl
  case h_13 heq =>
    obtain rfl : tag = _ := heq
    obtain ⟨v, hv, rfl⟩ := Except.map_eq_ok_iff.mp h
    obtain ⟨rfl, hne⟩ := (nonemptyKeys_eq_ok_iff bytes v).mp hv
    refine ⟨⟨hs.heirMode, fun _ hv ↦ Option.some.inj hv ▸ hne, hs.proposals⟩, forall_mem_tags.mpr ?_⟩
    and_intros
    all_goals rfl
  case h_14 heq =>
    obtain rfl : tag = _ := heq
    obtain ⟨v, hv, rfl⟩ := Except.map_eq_ok_iff.mp h
    obtain ⟨rfl, hne⟩ := (decodeVotes_eq_ok_iff bytes v).mp hv
    rw [nonempty_eq_none_iff.mp hempty, List.nil_append]
    refine ⟨⟨hs.heirMode, hs.deviceFprs, hs.proposals⟩, forall_mem_tags.mpr ?_⟩
    and_intros
    all_goals first | rfl | exact nonempty_eq_some_iff.mpr ⟨hne, rfl⟩
  case h_15 heq =>
    obtain rfl : tag = _ := heq
    obtain ⟨v, hv, rfl⟩ := Except.map_eq_ok_iff.mp h
    obtain ⟨rfl, hne, hfits⟩ := (decodeProposals_eq_ok_iff bytes v).mp hv
    refine ⟨⟨hs.heirMode, hs.deviceFprs, hfits⟩, forall_mem_tags.mpr ?_⟩
    and_intros
    all_goals first | rfl | exact nonempty_eq_some_iff.mpr ⟨hne, rfl⟩
  case h_16 heq =>
    obtain rfl : tag = _ := heq
    obtain ⟨v, hv, rfl⟩ := Except.map_eq_ok_iff.mp h
    obtain ⟨rfl, hne⟩ : bytes = toLeBytes v ∧ _ := proposalTtlField_eq_ok_iff.mp hv
    refine ⟨⟨hs.heirMode, hs.deviceFprs, hs.proposals⟩, forall_mem_tags.mpr ?_⟩
    and_intros
    all_goals first | rfl | exact if_pos hne
  case h_17 heq =>
    obtain rfl : tag = _ := heq
    obtain ⟨v, hv, rfl⟩ := Except.map_eq_ok_iff.mp h
    obtain ⟨rfl, rfl⟩ : bytes = [1] ∧ _ := frozenField_eq_ok_iff.mp hv
    refine ⟨⟨hs.heirMode, hs.deviceFprs, hs.proposals⟩, forall_mem_tags.mpr ?_⟩
    and_intros
    all_goals rfl
  case h_18 => simp_all [tags]
  all_goals
    rename_i heq
    obtain rfl : tag = _ := heq
    obtain ⟨v, hv, rfl⟩ := Except.map_eq_ok_iff.mp h
    have hbytes := by
      first
      | exact Field.le_eq_ok_iff.mp hv
      | exact Field.u8_eq_ok_iff.mp hv
      | exact Field.array_eq_ok_iff.mp hv
      | exact revokedField_eq_ok_iff.mp hv
    obtain rfl : bytes = _ := hbytes
    refine ⟨⟨hs.heirMode, hs.deviceFprs, hs.proposals⟩, forall_mem_tags.mpr ?_⟩
    and_intros
    all_goals rfl

/-- What is written for a slot is read. -/
theorem Reading.accepts {r : Reading} (hr : r.Allowed) (s : Reading) :
    ∀ tag ∈ tags, ∀ bytes, r.value tag = some bytes → ∃ s', readField decodeStep s (tag, bytes) = .ok s' := by
  refine forall_mem_tags.mpr ⟨?fileId, ?revoked, ?maxDevices, ?maxGrants, ?coauthors, ?coauthorThreshold,
    ?approvers, ?approverThreshold, ?heirMode, ?silenceSeconds, ?lastAlive, ?releasedAt, ?deviceFprs,
    ?votes, ?proposals, ?proposalTtl, ?frozen⟩
  all_goals
    intro bytes hvalue
    simp only [readField, decodeStep]
  case coauthors | approvers =>
    obtain ⟨hne, rfl⟩ := nonempty_eq_some_iff.mp hvalue
    exact Except.exists_map_eq_ok ((nonemptyKeys_eq_ok_iff _ _).mpr ⟨rfl, hne⟩)
  case heirMode =>
    obtain ⟨mode, hmode, rfl⟩ := Option.map_eq_some_iff.mp hvalue
    exact Except.exists_map_eq_ok (heirModeField_eq_ok_iff.mpr ⟨rfl, hr.heirMode mode hmode⟩)
  case deviceFprs =>
    obtain ⟨fprs, hfprs, rfl⟩ := Option.map_eq_some_iff.mp hvalue
    exact Except.exists_map_eq_ok ((nonemptyKeys_eq_ok_iff _ _).mpr ⟨rfl, hr.deviceFprs fprs hfprs⟩)
  case votes =>
    obtain ⟨hne, rfl⟩ := nonempty_eq_some_iff.mp hvalue
    exact Except.exists_map_eq_ok ((decodeVotes_eq_ok_iff _ _).mpr ⟨rfl, hne⟩)
  case proposals =>
    obtain ⟨hne, rfl⟩ := nonempty_eq_some_iff.mp hvalue
    exact Except.exists_map_eq_ok ((decodeProposals_eq_ok_iff _ _).mpr ⟨rfl, hne, hr.proposals⟩)
  case proposalTtl =>
    obtain ⟨hne, rfl⟩ : r.proposalTtl ≠ 0 ∧ toLeBytes r.proposalTtl = bytes := by
      simpa [value] using hvalue
    exact Except.exists_map_eq_ok (proposalTtlField_eq_ok_iff.mpr ⟨rfl, hne⟩)
  case frozen =>
    obtain ⟨-, rfl⟩ : r.frozen = true ∧ [1] = bytes := by simpa [value] using hvalue
    exact Except.exists_map_eq_ok (frozenField_eq_ok_iff.mpr ⟨rfl, rfl⟩)
  case revoked =>
    obtain ⟨revoked, -, rfl⟩ := Option.map_eq_some_iff.mp hvalue
    exact Except.exists_map_eq_ok (revokedField_eq_ok_iff.mpr rfl)
  case fileId =>
    obtain ⟨fileId, -, rfl⟩ := Option.map_eq_some_iff.mp hvalue
    exact Except.exists_map_eq_ok (Field.array_eq_ok_iff.mpr rfl)
  case coauthorThreshold | approverThreshold =>
    obtain ⟨threshold, -, rfl⟩ := Option.map_eq_some_iff.mp hvalue
    exact Except.exists_map_eq_ok (Field.u8_eq_ok_iff.mpr rfl)
  all_goals
    obtain ⟨v, -, rfl⟩ := Option.map_eq_some_iff.mp hvalue
    exact Except.exists_map_eq_ok (Field.le_eq_ok_iff.mpr rfl)

/-- An optional field tells lists apart that its writer tells apart where they have items. -/
theorem nonempty_injective {α : Type} {write : List α → List UInt8} {a b : List α}
    (hwrite : a ≠ [] → b ≠ [] → write a = write b → a = b)
    (h : nonempty a (write a) = nonempty b (write b)) : a = b := by
  by_cases ha : a = []
  · rw [nonempty_eq_none_iff.mpr ha] at h
    rw [ha, nonempty_eq_none_iff.mp h.symm]
  · obtain ⟨hb, hwritten⟩ := nonempty_eq_some_iff.mp (h.symm.trans (nonempty_eq_some_iff.mpr ⟨ha, rfl⟩))
    exact hwrite ha hb hwritten.symm

/-- The bytes of the votes tell lists of votes apart. -/
theorem flatMap_voteBytes_injective {a b : List Vote} (ha : a ≠ []) (hb : b ≠ [])
    (h : a.flatMap voteBytes = b.flatMap voteBytes) : a = b := by
  have hread := (decodeVotes_eq_ok_iff _ a).mpr ⟨h.symm, ha⟩
  rw [(decodeVotes_eq_ok_iff _ b).mpr ⟨rfl, hb⟩] at hread
  exact (Except.ok.inj hread).symm

/-- So do the frames of the proposals. -/
theorem frames_proposalBytes_injective {a b : List ProposalStanding} (hfits : ∀ p ∈ a, p.Fits)
    (hfits' : ∀ p ∈ b, p.Fits) (ha : a ≠ []) (hb : b ≠ [])
    (h : frames (a.map proposalBytes) = frames (b.map proposalBytes)) : a = b := by
  have hread := (decodeProposals_eq_ok_iff _ a).mpr ⟨h.symm, ha, hfits⟩
  rw [(decodeProposals_eq_ok_iff _ b).mpr ⟨rfl, hb, hfits'⟩] at hread
  exact (Except.ok.inj hread).symm

theorem toUInt8_injective : Function.Injective Bool.toUInt8 := by decide

/-- A number that is left out when it is zero. -/
theorem nonzero_injective :
    Function.Injective fun x : Int64 ↦ if x ≠ 0 then some (toLeBytes x) else none := by
  intro x y h
  by_cases hx : x = 0
  · by_cases hy : y = 0
    · exact hx.trans hy.symm
    · simp only [hx, hy, ne_eq, not_true_eq_false, not_false_eq_true, if_true, if_false, reduceCtorEq] at h
  · by_cases hy : y = 0
    · simp only [hx, hy, ne_eq, not_true_eq_false, not_false_eq_true, if_true, if_false, reduceCtorEq] at h
    · simp only [hx, hy, ne_eq, not_false_eq_true, if_true, Option.some_inj] at h
      exact toLeBytes_injective h

/-- A flag that is left out when it is not set. -/
theorem flag_injective :
    Function.Injective fun set : Bool ↦ if set then some [(1 : UInt8)] else none := by decide

/-- What is written for the slots determines them. -/
theorem Reading.ext_of_value {r r' : Reading} (hr : ∀ p ∈ r.proposals, p.Fits)
    (hr' : ∀ p ∈ r'.proposals, p.Fits)
    (h : ∀ tag ∈ tags, r.value tag = r'.value tag) : r = r' := by
  obtain ⟨fileId, revoked, maxDevices, maxGrants, coauthors, coauthorThreshold, approvers,
    approverThreshold, heirMode, silenceSeconds, lastAlive, releasedAt, deviceFprs, votes, proposals,
    proposalTtl, frozen⟩ := forall_mem_tags.mp h
  have hle {τ : Type} [LeInt τ] : Function.Injective (Option.map fun x : τ ↦ toLeBytes x) :=
    Option.map_injective toLeBytes_injective
  have hbyte : Function.Injective (Option.map fun byte : UInt8 ↦ [byte]) :=
    Option.map_injective List.singleton_injective
  obtain ⟨⟩ := r
  obtain ⟨⟩ := r'
  simp only [Reading.mk.injEq]
  refine ⟨?_, ?_, hle maxDevices, hle maxGrants, ?_, hbyte coauthorThreshold, ?_, hbyte approverThreshold,
    hbyte heirMode, hle silenceSeconds, hle lastAlive, hle releasedAt, ?_, ?_, ?_,
    nonzero_injective proposalTtl, flag_injective frozen⟩
  · exact Option.map_injective List.Vector.toList_injective fileId
  · exact Option.map_injective (fun _ _ h ↦ toUInt8_injective (List.singleton_injective h)) revoked
  · exact nonempty_injective (fun _ _ h ↦ flatten_injective h) coauthors
  · exact nonempty_injective (fun _ _ h ↦ flatten_injective h) approvers
  · exact Option.map_injective flatten_injective deviceFprs
  · exact nonempty_injective flatMap_voteBytes_injective votes
  · exact @nonempty_injective _ (fun l ↦ frames (l.map proposalBytes)) _ _
      (frames_proposalBytes_injective hr hr') proposals

/-- **Every tag has a slot of its own** in what is read: the loop fills it from the value, and from nothing
else. -/
theorem slotStep_decodeStep : SlotStep tags decodeStep Reading.value Reading.Allowed where
  reads := Reading.reads
  accepts s htag hr hvalue := Reading.accepts hr s _ htag _ hvalue
  ext hr hr' := Reading.ext_of_value hr.proposals hr'.proposals

/-! ### The whole standing -/

/-- A roster whose threshold is achievable by it. -/
def Achievable (keys : List Digest) (threshold : UInt8) : Prop :=
  keys.length ≤ Order.maxKeys ∧
    (keys = [] ∧ threshold = 0 ∨ 1 ≤ threshold.toNat ∧ threshold.toNat ≤ keys.length)

/-- A standing that can be read: its rosters are achievable, and heirs are named. -/
structure Sound (standing : Standing) : Prop where
  coauthors : Achievable standing.coauthors standing.coauthorThreshold
  approvers : Achievable standing.approvers standing.approverThreshold
  heir : ∀ fprs ∈ standing.heir.fprs, fprs ≠ []

/-- The slot of a threshold, which is empty for zero. -/
def thresholdSlot (threshold : UInt8) : Option UInt8 := if threshold ≠ 0 then some threshold else none

/-- The slots of a standing. -/
def Reading.of (standing : Standing) : Reading :=
  ⟨some standing.fileId, some standing.revoked, standing.maxDevices, standing.maxGrants,
    standing.coauthors, thresholdSlot standing.coauthorThreshold, standing.approvers,
    thresholdSlot standing.approverThreshold, standing.heir.mode, standing.heir.silence,
    standing.lastAlive, standing.heir.released, standing.heir.fprs, standing.votes, standing.proposals,
    standing.proposalTtl, standing.frozen⟩

/-- A threshold is known from its slot. -/
theorem thresholdSlot_injective : Function.Injective thresholdSlot := by
  intro a b h
  unfold thresholdSlot at h
  split_ifs at h with ha hb hb
  · exact Option.some.inj h
  · rw [not_not.mp ha, not_not.mp hb]

theorem HeirStanding.ext_of_fields {h h' : HeirStanding} (hmode : h.mode = h'.mode)
    (hsilence : h.silence = h'.silence) (hreleased : h.released = h'.released)
    (hfprs : h.fprs = h'.fprs) : h = h' := by
  cases h <;> cases h' <;> simp_all [mode, silence, released, fprs]

/-- What is read of a standing determines it. -/
theorem Reading.of_injective : Function.Injective Reading.of := by
  intro s s' h
  obtain ⟨⟩ := s
  obtain ⟨⟩ := s'
  simp only [Reading.of, Reading.mk.injEq, Option.some.injEq, thresholdSlot_injective.eq_iff] at h
  obtain ⟨rfl, rfl, rfl, rfl, rfl, rfl, rfl, rfl, hmode, hsilence, rfl, hreleased, hfprs, rfl, rfl, rfl,
    rfl⟩ := h
  rw [HeirStanding.ext_of_fields hmode hsilence hreleased hfprs]

theorem thresholdSlot_eq_some_iff {threshold t : UInt8} :
    thresholdSlot threshold = some t ↔ t ≠ 0 ∧ threshold = t := by
  unfold thresholdSlot
  split_ifs with hzero
  · rw [Option.some_inj]
    exact ⟨fun h ↦ ⟨h ▸ hzero, h⟩, fun h ↦ h.2⟩
  · rw [not_not.mp hzero]
    exact ⟨nofun, fun ⟨hne, h⟩ ↦ absurd h.symm hne⟩

theorem thresholdSlot_eq_none_iff {threshold : UInt8} : thresholdSlot threshold = none ↔ threshold = 0 := by
  unfold thresholdSlot
  split_ifs with hzero
  · exact ⟨nofun, fun h ↦ absurd h hzero⟩
  · exact ⟨fun _ ↦ not_not.mp hzero, fun _ ↦ rfl⟩

theorem toNat_eq_zero_iff {threshold : UInt8} : threshold.toNat = 0 ↔ threshold = 0 := by
  rw [← UInt8.toNat_inj]
  rfl

/-- A roster without keys has no threshold. -/
theorem achievable_nil {threshold : UInt8} : Achievable [] threshold ↔ threshold = 0 := by
  simp only [Achievable, List.length_nil, Nat.zero_le, true_and, ← toNat_eq_zero_iff]
  omega

/-- One with keys has a threshold that its keys can reach. -/
theorem achievable_cons {key : Digest} {keys : List Digest} {threshold : UInt8} :
    Achievable (key :: keys) threshold ↔ (key :: keys).length ≤ Order.maxKeys ∧ threshold ≠ 0 ∧
      threshold.toNat ≤ (key :: keys).length := by
  simp only [Achievable, List.cons_ne_nil, false_and, false_or, Nat.one_le_iff_ne_zero, ne_eq,
    toNat_eq_zero_iff]

/-- **The check of a roster** is about its keys and its threshold alone: the slot is the one of the threshold.
-/
theorem checkRoster_eq_ok_iff {keysTag thresholdTag : UInt16} {keys : List Digest} {slot : Option UInt8}
    {threshold : UInt8} : checkRoster keysTag thresholdTag keys slot = .ok threshold ↔
      slot = thresholdSlot threshold ∧ Achievable keys threshold := by
  unfold checkRoster
  rw [Except.check_bind_eq_ok_iff, Except.refuseIf_eq_ok_iff, not_lt]
  rcases keys with - | ⟨key, keys⟩ <;> rcases slot with - | t
  · rw [achievable_nil, eq_comm (b := thresholdSlot threshold), thresholdSlot_eq_none_iff]
    exact ⟨fun ⟨_, h⟩ ↦ ⟨(Except.ok.inj h).symm, (Except.ok.inj h).symm⟩,
      fun ⟨h, _⟩ ↦ ⟨Nat.zero_le _, congrArg Except.ok h.symm⟩⟩
  · rw [achievable_nil, eq_comm (b := thresholdSlot threshold), thresholdSlot_eq_some_iff]
    exact ⟨nofun, fun ⟨⟨hne, h⟩, hzero⟩ ↦ absurd (h.symm.trans hzero) hne⟩
  · rw [achievable_cons, eq_comm (b := thresholdSlot threshold), thresholdSlot_eq_none_iff]
    exact ⟨nofun, fun ⟨hzero, _, hne, _⟩ ↦ absurd hzero hne⟩
  · rw [achievable_cons, eq_comm (b := thresholdSlot threshold), thresholdSlot_eq_some_iff,
      Except.check_bind_eq_ok_iff, Except.refuseIf_eq_ok_iff, not_or, toNat_eq_zero_iff, not_lt,
      Except.ok.injEq]
    constructor
    · rintro ⟨hshort, ⟨hne, hle⟩, rfl⟩
      exact ⟨⟨hne, rfl⟩, hshort, hne, hle⟩
    · rintro ⟨⟨-, rfl⟩, hshort, hne, hle⟩
      exact ⟨hshort, ⟨hne, hle⟩, rfl⟩

/-- **The heir is put together from five slots**, of which the last is read only if there is an heir. -/
theorem Reading.heir_eq_ok_iff {acc : Reading} {heir : HeirStanding} :
    acc.heir = .ok heir ↔ acc.heirMode = heir.mode ∧ acc.silenceSeconds = heir.silence ∧
      acc.deviceFprs = heir.fprs ∧ (heir ≠ .absent → acc.releasedAt = heir.released) ∧
      ∀ fprs ∈ heir.fprs, fprs ≠ [] := by
  obtain ⟨_, _, _, _, _, _, _, _, mode, silence, _, released, fprs, _, _, _, _⟩ := acc
  constructor
  · intro h
    rw [Reading.heir] at h
    split at h <;> simp_all
    all_goals
      subst h
      simp [HeirStanding.mode, HeirStanding.silence, HeirStanding.fprs, HeirStanding.released]
  · rintro ⟨hmode, hsilence, hfprs, hreleased, hnamed⟩
    cases heir with
    | absent => simp_all [Reading.heir, HeirStanding.mode, HeirStanding.silence, HeirStanding.fprs]
    | openFor deviceFprs silenceSeconds releasedAt =>
      cases deviceFprs with
      | nil => exact absurd rfl (hnamed [] rfl)
      | cons fpr fprs =>
        simp_all [Reading.heir, HeirStanding.mode, HeirStanding.silence, HeirStanding.fprs,
          HeirStanding.released]
    | close silenceSeconds releasedAt =>
      simp_all [Reading.heir, HeirStanding.mode, HeirStanding.silence, HeirStanding.fprs,
        HeirStanding.released]

/-- What was read is a standing if and only if its slots are those of that standing, which is sound. -/
theorem Reading.standing_eq_ok_iff {acc : Reading} {standing : Standing} :
    acc.standing = .ok standing ↔ acc = Reading.of standing ∧ standing.Sound := by
  simp only [Reading.standing, Except.bind_eq_ok_iff, checkRoster_eq_ok_iff, heir_eq_ok_iff,
    Except.refuseIf_eq_ok_iff, Except.okOr_eq_ok_iff, Except.ok.injEq]
  constructor
  · rintro ⟨coauthorThreshold, ⟨hcoauthors, hcoauthors'⟩, approverThreshold, ⟨happrovers, happrovers'⟩,
      heir, ⟨hmode, hsilence, hfprs, hreleased, hnamed⟩, ⟨⟩, habsent, fileId, hfileId, revoked, hrevoked, rfl⟩
    refine ⟨?_, hcoauthors', happrovers', hnamed⟩
    have hreleased : acc.releasedAt = heir.released := by
      by_cases h : heir = .absent
      · rw [h]
        exact Option.not_isSome_iff_eq_none.mp fun hsome ↦ habsent ⟨h, hsome⟩
      · exact hreleased h
    obtain ⟨⟩ := acc
    simp only [Reading.of, Reading.mk.injEq, true_and, and_true]
    exact ⟨hfileId, hrevoked, hcoauthors, happrovers, hmode, hsilence, hreleased, hfprs⟩
  · rintro ⟨rfl, hsound⟩
    refine ⟨_, ⟨rfl, hsound.coauthors⟩, _, ⟨rfl, hsound.approvers⟩, standing.heir,
      ⟨rfl, rfl, rfl, fun _ ↦ rfl, hsound.heir⟩, (), ?_, _, rfl, _, rfl, rfl⟩
    rintro ⟨habsent, hreleased⟩
    rw [Reading.of, habsent] at hreleased
    exact Bool.false_ne_true hreleased

/-- The tags and values of a standing. -/
def contents (standing : Standing) : Contents := SlotStep.contents tags Reading.value (Reading.of standing)

theorem tags_increasing : tags.Pairwise (· < ·) := by decide

/-- The records in the order of their tags. -/
theorem contents_eq (standing : Standing) :
    standing.contents = [(Tag.fileId, standing.fileId.toList), (Tag.revoked, [standing.revoked.toUInt8])] ++
      optField Tag.maxDevices (standing.maxDevices.map toLeBytes) ++
      optField Tag.maxGrants (standing.maxGrants.map toLeBytes) ++
      optField Tag.coauthors (nonempty standing.coauthors (flatten standing.coauthors)) ++
      optField Tag.coauthorThreshold (thresholdField standing.coauthorThreshold) ++
      optField Tag.approvers (nonempty standing.approvers (flatten standing.approvers)) ++
      optField Tag.approverThreshold (thresholdField standing.approverThreshold) ++
      optField Tag.heirMode (standing.heir.mode.map fun mode ↦ [mode]) ++
      optField Tag.silenceSeconds (standing.heir.silence.map toLeBytes) ++
      optField Tag.lastAlive (standing.lastAlive.map toLeBytes) ++
      optField Tag.heirReleasedAt (standing.heir.released.map toLeBytes) ++
      optField Tag.heirFpr (standing.heir.fprs.map flatten) ++
      optField Tag.votes (nonempty standing.votes (standing.votes.flatMap voteBytes)) ++
      optField Tag.proposals (nonempty standing.proposals (frames (standing.proposals.map proposalBytes))) ++
      optField Tag.proposalTtl
        (if standing.proposalTtl ≠ 0 then some (toLeBytes standing.proposalTtl) else none) ++
      optField Tag.frozen (if standing.frozen then some [1] else none) := by
  have hthreshold (threshold : UInt8) :
      thresholdField threshold = (thresholdSlot threshold).map fun threshold ↦ [threshold] := by
    rw [thresholdField, thresholdSlot]
    split_ifs <;> rfl
  have happend : standing.contents = tags.flatMap fun tag ↦
      optField tag ((Reading.of standing).value tag) := rfl
  rw [happend, hthreshold, hthreshold]
  simp only [tags, List.flatMap_cons, List.flatMap_nil, List.append_nil, List.append_assoc]
  rfl

/-- **What is written.** -/
theorem encode_eq_ok_iff {standing : Standing} {bytes : List UInt8} :
    standing.encode = .ok bytes ↔ (∀ p ∈ standing.proposals, p.Fits) ∧ Encodes bytes standing.contents := by
  simp only [encode, TlvWriter.new_put_bind, TlvWriter.putMany_put_bind, TlvWriter.putMany_putOpt_bind,
    TlvWriter.putMany_bind_eq_ok_iff, TlvWriter.putMany_finish_eq_ok_iff, encodeProposals_eq_ok_iff,
    contents_eq, List.cons_append, List.nil_append]
  constructor
  · rintro ⟨_, ⟨hfits, rfl⟩, hbytes⟩
    exact ⟨hfits, hbytes⟩
  · rintro ⟨hfits, hbytes⟩
    exact ⟨_, ⟨hfits, rfl⟩, hbytes⟩

/-- Standings are written the same only if they are equal. -/
theorem encode_injective {s s' : Standing} {bytes : List UInt8} (h : s.encode = .ok bytes)
    (h' : s'.encode = .ok bytes) : s = s' := by
  obtain ⟨hfits, hbytes⟩ := encode_eq_ok_iff.mp h
  obtain ⟨hfits', hbytes'⟩ := encode_eq_ok_iff.mp h'
  exact Reading.of_injective <| Reading.ext_of_value hfits hfits' <|
    SlotStep.value_eq_of_contents_eq tags_increasing (hbytes.unique hbytes')

/-- Every slot of a sound standing has a value that its field allows. -/
theorem Reading.allowed_of {s : Standing} (hsound : s.Sound) (hfits : ∀ p ∈ s.proposals, p.Fits) :
    (Reading.of s).Allowed := by
  refine ⟨?_, hsound.heir, hfits⟩
  intro mode hmode
  unfold Reading.of HeirStanding.mode at hmode
  cases hheir : s.heir <;> simp_all

/-- **What is read.** A document is read as a standing if and only if its unknown fields are optional, its
known fields are those of the standing, and the standing is sound. -/
theorem decode_eq_ok_iff {bytes : List UInt8} {l : Contents} (henc : Encodes bytes l) {s : Standing} :
    decode bytes = .ok s ↔ (∀ p ∈ l, p.1 ∉ tags → critTagMax < p.1) ∧
      (l.filter fun p ↦ p.1 ∈ tags) = s.contents ∧ s.Sound ∧ ∀ p ∈ s.proposals, p.Fits := by
  have hempty : ∀ u ∈ tags, Reading.value {} u = none := by
    refine forall_mem_tags.mpr ?_
    and_intros
    all_goals rfl
  have hnew : Reading.Allowed {} := ⟨nofun, nofun, nofun⟩
  have hinverted (r : Reading) : l.foldlM (readField decodeStep) {} = .ok r ↔
      (∀ p ∈ l, p.1 ∉ tags → critTagMax < p.1) ∧ r.Allowed ∧
        (l.filter fun p ↦ p.1 ∈ tags) = SlotStep.contents tags Reading.value r :=
    slotStep_decodeStep.foldlM_record_eq_ok_iff recordStep_decodeStep tags_increasing hnew hempty henc.increasing
  simp only [decode, Except.bind_eq_ok_iff, recordStep_decodeStep.foldFields_eq henc, hinverted,
    Reading.standing_eq_ok_iff]
  constructor
  · intro h
    obtain ⟨_, ⟨hoptional, hallowed, hcontents⟩, rfl, hsound⟩ := h
    exact ⟨hoptional, hcontents, hsound, hallowed.proposals⟩
  · intro h
    obtain ⟨hoptional, hcontents, hsound, hfits⟩ := h
    exact ⟨_, ⟨hoptional, Reading.allowed_of hsound hfits, hcontents⟩, rfl, hsound⟩

/-- **What is read is sound**, whoever wrote it. -/
theorem sound_of_decode {bytes : List UInt8} {s : Standing} (h : decode bytes = .ok s) : s.Sound := by
  obtain ⟨acc, hloop, -⟩ := Except.bind_eq_ok_iff.mp h
  obtain ⟨l, henc, -⟩ := exists_encodes_of_foldFields hloop
  exact ((decode_eq_ok_iff henc).mp h).2.2.1

/-- No field of a document has an optional tag that its reader does not know. -/
def NoUnknownOptional (bytes : List UInt8) : Prop :=
  ∀ l, Encodes bytes l → ∀ p ∈ l, critTagMax < p.1 → p.1 ∈ tags

/-- **Standings are canonical and never misread.** What was written is read back if and only if its rosters
are achievable and its heirs are named, and is read as nothing else; what was read, of known fields, is what
is written for it. -/
theorem decode_encode_canonical :
    (∀ (s : Standing) (bytes : List UInt8), s.encode = .ok bytes →
      (decode bytes = .ok s ↔ s.Sound) ∧ ∀ s', decode bytes = .ok s' → s' = s) ∧
    ∀ (bytes : List UInt8) (s : Standing), decode bytes = .ok s → NoUnknownOptional bytes →
      s.encode = .ok bytes := by
  refine ⟨fun s bytes hencode ↦ ?_, fun bytes s hdecode hplain ↦ ?_⟩
  · obtain ⟨hfits, hbytes⟩ := encode_eq_ok_iff.mp hencode
    have hknown : ∀ p ∈ s.contents, p.1 ∈ tags := fun p hp ↦ (SlotStep.mem_contents.mp hp).1
    have hself : (s.contents.filter fun p ↦ p.1 ∈ tags) = s.contents :=
      List.filter_eq_self.mpr fun p hp ↦ decide_eq_true (hknown p hp)
    refine ⟨⟨fun h ↦ ((decode_eq_ok_iff hbytes).mp h).2.2.1, fun hsound ↦ ?_⟩, fun s' hs' ↦ ?_⟩
    · exact (decode_eq_ok_iff hbytes).mpr
        ⟨fun p hp hunknown ↦ absurd (hknown p hp) hunknown, hself, hsound, hfits⟩
    · obtain ⟨-, hcontents, -, hfits'⟩ := (decode_eq_ok_iff hbytes).mp hs'
      exact encode_injective (encode_eq_ok_iff.mpr ⟨hfits', hcontents ▸ hself.symm ▸ hbytes⟩) hencode
  · obtain ⟨acc, hloop, -⟩ := Except.bind_eq_ok_iff.mp hdecode
    obtain ⟨l, henc, -⟩ := exists_encodes_of_foldFields hloop
    obtain ⟨hoptional, hcontents, -, hfits⟩ := (decode_eq_ok_iff henc).mp hdecode
    have hself : (l.filter fun p ↦ p.1 ∈ tags) = l := by
      refine List.filter_eq_self.mpr fun p hp ↦ decide_eq_true ?_
      by_contra hunknown
      exact hunknown (hplain l henc p hp (hoptional p hp hunknown))
    exact encode_eq_ok_iff.mpr ⟨hfits, hcontents ▸ hself.symm ▸ henc⟩

/-- A file about which nothing was ordered. -/
def unordered : Standing where
  fileId := List.Vector.replicate 16 7
  revoked := false
  maxDevices := none
  maxGrants := none
  coauthors := []
  coauthorThreshold := 0
  proposalTtl := 0
  approvers := []
  approverThreshold := 0
  heir := .absent
  lastAlive := none
  votes := []
  proposals := []
  frozen := false

/-- A file with everything that its author can order: two coauthors of whom both must sign, one approver
who has voted, an heir after a year of silence, and a proposal that waits for the second signature. -/
def ordered : Standing where
  fileId := List.Vector.replicate 16 7
  revoked := true
  maxDevices := some 5
  maxGrants := some 10
  coauthors := [List.Vector.replicate 32 1, List.Vector.replicate 32 2]
  coauthorThreshold := 2
  proposalTtl := 86400
  approvers := [List.Vector.replicate 32 3]
  approverThreshold := 1
  heir := .openFor [List.Vector.replicate 32 4] 31536000 (some 1700000500)
  lastAlive := some 1700000000
  votes := [⟨List.Vector.replicate 32 5, List.Vector.replicate 32 3, true, 1700000200⟩]
  proposals := [⟨List.Vector.replicate 32 6, 3, 1700000300, 2, [List.Vector.replicate 32 1], utf8 "freeze"⟩]
  frozen := true

/-- The standing of an order with rosters, an heir, votes and proposals is read back. -/
theorem decode_encode_canonical_ordered :
    ∃ bytes, ordered.encode = .ok bytes ∧ decode bytes = .ok ordered := by
  have hsound : ordered.Sound :=
    ⟨⟨by decide, .inr (by decide)⟩, ⟨by decide, .inr (by decide)⟩, by decide⟩
  obtain ⟨bytes, hbytes⟩ : ∃ bytes, ordered.encode = .ok bytes := ⟨_, rfl⟩
  exact ⟨bytes, hbytes, ((decode_encode_canonical.1 ordered bytes hbytes).1).mpr hsound⟩

end Standing

end OpenCrate.Protocol
