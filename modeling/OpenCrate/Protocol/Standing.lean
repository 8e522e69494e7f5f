import OpenCrate.Data.Chunks
import OpenCrate.Data.Framed
import OpenCrate.Format.TlvRecord
import OpenCrate.Protocol.Order

/-!
# The standing of a file

`standing` of `oc-protocol`: what the orders of the author amount to at the moment, as the server tells it.
Absence is written by leaving a field out, and an explicit empty or zero value is refused, so that a
standing has one encoding.
-/

namespace OpenCrate.Protocol

open OpenCrate.Format OpenCrate.Crypto
open Except (refuseIf okOr)

namespace Standing

namespace Tag

def fileId : UInt16 := 1

def revoked : UInt16 := 2

def maxDevices : UInt16 := 3

def maxGrants : UInt16 := 4

def coauthors : UInt16 := 5

def coauthorThreshold : UInt16 := 6

def approvers : UInt16 := 7

def approverThreshold : UInt16 := 8

def heirMode : UInt16 := 9

def silenceSeconds : UInt16 := 10

def lastAlive : UInt16 := 11

def heirReleasedAt : UInt16 := 12

def heirFpr : UInt16 := 13

def votes : UInt16 := 14

def proposals : UInt16 := 15

def proposalTtl : UInt16 := 16

def frozen : UInt16 := 17

end Tag

/-- Action configured for the author's silence. -/
inductive HeirStanding where
  /-- No heir appointed. -/
  | absent
  /-- After silence, bequests open for these devices. -/
  | openFor (deviceFprs : List Digest) (silenceSeconds : UInt64) (releasedAt : Option Int64)
  /-- After silence, the file closes for everyone. -/
  | close (silenceSeconds : UInt64) (releasedAt : Option Int64)
  deriving DecidableEq

/-- An approver's vote as seen by the author. -/
structure Vote where
  deviceFpr : Digest
  voter : Digest
  approve : Bool
  at_ : Int64
  deriving DecidableEq

/-- A proposal awaiting signatures. -/
structure ProposalStanding where
  /-- Digest of the intent: identifies the proposal. -/
  intent : Digest
  kind : UInt8
  at_ : Int64
  need : UInt8
  signers : List Digest
  /-- The body of the first signer. -/
  body : List UInt8
  deriving DecidableEq

end Standing

open Standing in
/-- The complete file standing. -/
structure Standing where
  fileId : List.Vector UInt8 16
  revoked : Bool
  maxDevices : Option UInt32
  maxGrants : Option UInt32
  coauthors : List Digest
  coauthorThreshold : UInt8
  /-- Proposal lifetime: a resolved value. -/
  proposalTtl : Int64
  approvers : List Digest
  approverThreshold : UInt8
  heir : HeirStanding
  /-- When the server last saw the author. -/
  lastAlive : Option Int64
  votes : List Vote
  proposals : List ProposalStanding
  /-- Issuance stopped by the author for all files at once. -/
  frozen : Bool
  deriving DecidableEq

namespace Standing

/-! ### Writing -/

/-- Consecutive keys, no separators. -/
def flatten (keys : List Digest) : List UInt8 := keys.flatMap List.Vector.toList

/-- A field that is left out when its list is empty. -/
def nonempty {α : Type} (items : List α) (value : List UInt8) : Option (List UInt8) :=
  if items = [] then none else some value

/-- A threshold that is left out when it is zero. -/
def thresholdField (threshold : UInt8) : Option (List UInt8) :=
  if threshold ≠ 0 then some [threshold] else none

/-- The mode of an heir. -/
def HeirStanding.mode : HeirStanding → Option UInt8
  | absent => none
  | openFor .. => some 1
  | close .. => some 2

/-- How long the author may be silent. -/
def HeirStanding.silence : HeirStanding → Option UInt64
  | absent => none
  | openFor _ silenceSeconds _ => some silenceSeconds
  | close silenceSeconds _ => some silenceSeconds

/-- When the silence was detected. -/
def HeirStanding.released : HeirStanding → Option Int64
  | absent => none
  | openFor _ _ releasedAt => releasedAt
  | close _ releasedAt => releasedAt

/-- The devices of the heirs. -/
def HeirStanding.fprs : HeirStanding → Option (List Digest)
  | openFor deviceFprs _ _ => some deviceFprs
  | _ => none

/-- Vote record length. -/
def voteLen : ℕ := 73

/-- The record of a vote. -/
def voteBytes (vote : Vote) : List UInt8 :=
  vote.deviceFpr.toList ++ vote.voter.toList ++ [vote.approve.toUInt8] ++ toLeBytes vote.at_

/-- One proposal behind those written. -/
def encodeProposal (flat : List UInt8) (proposal : ProposalStanding) :
    Except FormatError (List UInt8) := do
  let signers ← okOr (UInt8.tryFrom proposal.signers.length)
    (.badFieldLength Tag.proposals proposal.signers.length)
  let one := proposal.intent.toList ++ [proposal.kind] ++ toLeBytes proposal.at_ ++ [proposal.need] ++
    [signers] ++ flatten proposal.signers ++ proposal.body
  let len ← okOr (UInt32.tryFrom one.length) (.badFieldLength Tag.proposals one.length)
  .ok (flat ++ toLeBytes len ++ one)

/-- The stream of proposals. -/
def encodeProposals (proposals : List ProposalStanding) : Except FormatError (Option (List UInt8)) :=
  if proposals = [] then .ok none else (proposals.foldlM encodeProposal []).map some

/-- Encode the standing. The order of the fields is that of the tags. -/
def encode (standing : Standing) : Except FormatError (List UInt8) := do
  let w ← TlvWriter.new.put Tag.fileId standing.fileId.toList
  let w ← w.put Tag.revoked [standing.revoked.toUInt8]
  let w ← w.putOpt Tag.maxDevices (standing.maxDevices.map toLeBytes)
  let w ← w.putOpt Tag.maxGrants (standing.maxGrants.map toLeBytes)
  let w ← w.putOpt Tag.coauthors (nonempty standing.coauthors (flatten standing.coauthors))
  let w ← w.putOpt Tag.coauthorThreshold (thresholdField standing.coauthorThreshold)
  let w ← w.putOpt Tag.approvers (nonempty standing.approvers (flatten standing.approvers))
  let w ← w.putOpt Tag.approverThreshold (thresholdField standing.approverThreshold)
  let w ← w.putOpt Tag.heirMode (standing.heir.mode.map fun mode ↦ [mode])
  let w ← w.putOpt Tag.silenceSeconds (standing.heir.silence.map toLeBytes)
  let w ← w.putOpt Tag.lastAlive (standing.lastAlive.map toLeBytes)
  let w ← w.putOpt Tag.heirReleasedAt (standing.heir.released.map toLeBytes)
  let w ← w.putOpt Tag.heirFpr (standing.heir.fprs.map flatten)
  let w ← w.putOpt Tag.votes (nonempty standing.votes (standing.votes.flatMap voteBytes))
  let proposals ← encodeProposals standing.proposals
  let w ← w.putOpt Tag.proposals proposals
  let w ← w.putOpt Tag.proposalTtl
    (if standing.proposalTtl ≠ 0 then some (toLeBytes standing.proposalTtl) else none)
  let w ← w.putOpt Tag.frozen (if standing.frozen then some [1] else none)
  .ok w.finish

/-! ### Reading -/

/-- Consecutive keys. -/
def splitKeys (tag : UInt16) (value : List UInt8) : Except FormatError (List Digest) :=
  okOr (chunksExact? 32 value) (.badFieldLength tag value.length)

/-- A roster whose tag is present is not empty. -/
def nonemptyKeys (tag : UInt16) (value : List UInt8) : Except FormatError (List Digest) := do
  refuseIf (value = []) (.badFieldLength tag 0)
  splitKeys tag value

/-- Strictly zero or one. -/
def revokedField (f : Field) : Except FormatError Bool :=
  match f.value with
  | [0] => .ok false
  | [1] => .ok true
  | other => .error (.badFieldLength Tag.revoked other.length)

/-- Only one is written: an unfrozen file has no such field. -/
def frozenField (f : Field) : Except FormatError Bool :=
  match f.value with
  | [1] => .ok true
  | other => .error (.badFieldLength Tag.frozen other.length)

/-- One of the two modes. -/
def heirModeField (f : Field) : Except FormatError UInt8 :=
  match f.value with
  | [1] => .ok 1
  | [2] => .ok 2
  | other => .error (.badFieldLength Tag.heirMode other.length)

/-- A lifetime; zero is said by absence. -/
def proposalTtlField (f : Field) : Except FormatError Int64 := do
  let ttl : Int64 ← f.le
  refuseIf (ttl = 0) (.badFieldLength Tag.proposalTtl f.value.length)
  .ok ttl

/-- The decision in the record of a vote. -/
def decodeApprove (chunk : List UInt8) : Except FormatError Bool :=
  match (chunk[64]? : Option UInt8) with
  | some 0 => .ok false
  | some 1 => .ok true
  | _ => .error (.badFieldLength Tag.votes chunk.length)

/-- One record of the stream of votes. -/
def decodeVote (chunk : List UInt8) : Except FormatError Vote := do
  let bad : FormatError := .badFieldLength Tag.votes chunk.length
  let deviceFpr ← okOr ((slice? chunk 0 32).bind (toVector? 32)) bad
  let voter ← okOr ((slice? chunk 32 64).bind (toVector? 32)) bad
  let approve ← decodeApprove chunk
  let at_ ← okOr ((slice? chunk 65 73).bind ofLeBytes?) bad
  .ok ⟨deviceFpr, voter, approve, at_⟩

/-- The stream of votes, whose records are of one length. -/
def decodeVotes (value : List UInt8) : Except FormatError (List Vote) := do
  refuseIf (value = []) (.badFieldLength Tag.votes value.length)
  let chunks ← okOr (chunksExact? voteLen value) (.badFieldLength Tag.votes value.length)
  chunks.mapM fun chunk ↦ decodeVote chunk.toList

/-- A refusal of the stream of proposals. -/
def badProposals : FormatError := .badFieldLength Tag.proposals 0

/-- One record of the stream of proposals. -/
def decodeProposal (body : List UInt8) : Except FormatError ProposalStanding := do
  let count ← okOr body[42]? badProposals
  let signersEnd := 43 + count.toNat * 32
  let signers ← okOr (slice? body 43 signersEnd) badProposals
  let orderBody ← okOr (slice? body signersEnd body.length) badProposals
  let intent ← okOr ((slice? body 0 32).bind (toVector? 32)) badProposals
  let kind ← okOr body[32]? badProposals
  let at_ ← okOr ((slice? body 33 41).bind ofLeBytes?) badProposals
  let need ← okOr body[41]? badProposals
  let signers ← splitKeys Tag.proposals signers
  .ok ⟨intent, kind, at_, need, signers, orderBody⟩

/-- Proposals, each behind its length. -/
def splitProposals (rest : List UInt8) (out : List ProposalStanding) :
    Except FormatError (List ProposalStanding) :=
  if _h : rest = [] then .ok out
  else
    match (slice? rest 0 4).bind (ofLeBytes? : List UInt8 → Option UInt32) with
    | none => .error badProposals
    | some len =>
      match slice? rest 4 (4 + len.toNat) with
      | none => .error badProposals
      | some body => do
        let proposal ← decodeProposal body
        splitProposals (rest.drop (4 + len.toNat)) (out ++ [proposal])
termination_by rest.length
decreasing_by
  have := List.length_pos_iff.mpr ‹_›
  rw [List.length_drop]
  omega

/-- The stream of proposals; an empty one is said by absence. -/
def decodeProposals (value : List UInt8) : Except FormatError (List ProposalStanding) := do
  refuseIf (value = []) badProposals
  splitProposals value []

/-- The fields read so far. -/
structure Reading where
  fileId : Option (List.Vector UInt8 16) := none
  revoked : Option Bool := none
  maxDevices : Option UInt32 := none
  maxGrants : Option UInt32 := none
  coauthors : List Digest := []
  coauthorThreshold : Option UInt8 := none
  approvers : List Digest := []
  approverThreshold : Option UInt8 := none
  heirMode : Option UInt8 := none
  silenceSeconds : Option UInt64 := none
  lastAlive : Option Int64 := none
  releasedAt : Option Int64 := none
  deviceFprs : Option (List Digest) := none
  votes : List Vote := []
  proposals : List ProposalStanding := []
  proposalTtl : Int64 := 0
  frozen : Bool := false

/-- One field of a standing, by the tags of `Tag`. -/
def decodeStep (acc : Reading) (f : Field) : Except FormatError Reading :=
  match f.tag with
  | 1 => (f.array 16).map fun v ↦ { acc with fileId := some v }
  | 2 => (revokedField f).map fun v ↦ { acc with revoked := some v }
  | 3 => f.u32.map fun v ↦ { acc with maxDevices := some v }
  | 4 => f.u32.map fun v ↦ { acc with maxGrants := some v }
  | 5 => (nonemptyKeys f.tag f.value).map fun v ↦ { acc with coauthors := v }
  | 6 => f.u8.map fun v ↦ { acc with coauthorThreshold := some v }
  | 7 => (nonemptyKeys f.tag f.value).map fun v ↦ { acc with approvers := v }
  | 8 => f.u8.map fun v ↦ { acc with approverThreshold := some v }
  | 9 => (heirModeField f).map fun v ↦ { acc with heirMode := some v }
  | 10 => f.u64.map fun v ↦ { acc with silenceSeconds := some v }
  | 11 => f.le.map fun v ↦ { acc with lastAlive := some v }
  | 12 => f.le.map fun v ↦ { acc with releasedAt := some v }
  | 13 => (nonemptyKeys f.tag f.value).map fun v ↦ { acc with deviceFprs := some v }
  | 14 => (decodeVotes f.value).map fun v ↦ { acc with votes := acc.votes ++ v }
  | 15 => (decodeProposals f.value).map fun v ↦ { acc with proposals := v }
  | 16 => (proposalTtlField f).map fun v ↦ { acc with proposalTtl := v }
  | 17 => (frozenField f).map fun v ↦ { acc with frozen := v }
  | other => skipUnknown other acc

/-- Whether a threshold is achievable by its roster. -/
def checkRoster (keysTag thresholdTag : UInt16) (keys : List Digest) (threshold : Option UInt8) :
    Except FormatError UInt8 := do
  refuseIf (Order.maxKeys < keys.length) (.badFieldLength keysTag keys.length)
  match keys, threshold with
  | [], none => .ok 0
  | [], some _ => .error (.missingField keysTag)
  | _ :: _, none => .error (.missingField thresholdTag)
  | key :: keys, some threshold => do
    refuseIf (threshold.toNat = 0 ∨ (key :: keys).length < threshold.toNat)
      (.badFieldLength thresholdTag threshold.toNat)
    .ok threshold

/-- The heir of the mode and its fields. -/
def Reading.heir (acc : Reading) : Except FormatError HeirStanding :=
  match acc.heirMode, acc.silenceSeconds, acc.deviceFprs with
  | none, none, none => .ok .absent
  | some 1, some silenceSeconds, some (fpr :: fprs) =>
    .ok (.openFor (fpr :: fprs) silenceSeconds acc.releasedAt)
  | some 2, some silenceSeconds, none => .ok (.close silenceSeconds acc.releasedAt)
  | _, _, _ => .error (.unknownCriticalField Tag.heirMode)

/-- The standing that was read. -/
def Reading.standing (acc : Reading) : Except FormatError Standing := do
  let coauthorThreshold ←
    checkRoster Tag.coauthors Tag.coauthorThreshold acc.coauthors acc.coauthorThreshold
  let approverThreshold ←
    checkRoster Tag.approvers Tag.approverThreshold acc.approvers acc.approverThreshold
  let heir ← acc.heir
  refuseIf (heir = .absent ∧ acc.releasedAt.isSome) (.unknownCriticalField Tag.heirReleasedAt)
  let fileId ← okOr acc.fileId (.missingField Tag.fileId)
  let revoked ← okOr acc.revoked (.missingField Tag.revoked)
  .ok ⟨fileId, revoked, acc.maxDevices, acc.maxGrants, acc.coauthors, coauthorThreshold,
    acc.proposalTtl, acc.approvers, approverThreshold, heir, acc.lastAlive, acc.votes, acc.proposals,
    acc.frozen⟩

/-- Parse standing with exact lengths and consistent mode and fields. -/
def decode (bytes : List UInt8) : Except FormatError Standing :=
  TlvReader.foldFields decodeStep (TlvReader.new bytes) {} >>= Reading.standing

end Standing

end OpenCrate.Protocol
