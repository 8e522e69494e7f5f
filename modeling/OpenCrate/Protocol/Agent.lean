import OpenCrate.Format.Verify
import OpenCrate.Protocol.ActionCodec

/-!
# Agent grants and delegation chains

`agent` of `oc-protocol`: a grant that the author signs for a door, and links by which a door passes
on what it holds. A link holds only what the parent asserts; that the parent asserts no more than it
has is decided over the whole chain (`verifyGrantChainWithActions`), link by link, against the facts
of the link before it.

Signatures cover raw bytes, and are verified before anything is parsed.
-/

namespace OpenCrate.Protocol

open OpenCrate.Format OpenCrate.Crypto
open Except (refuseIf okOr)

namespace Agent

/-- Maximum files in one grant. -/
def maxGrantFiles : ℕ := 256

/-- Maximum delegation depth a grant may allow. -/
def maxGrantDepth : UInt8 := 4

/-- The only key-agreement mechanism that is executed for a door. -/
def doorKemX25519 : UInt8 := 1

namespace Tag

/-- Tag of the grant name. -/
def grantId : UInt16 := 1

/-- Tag of the door's fingerprint. -/
def doorFpr : UInt16 := 2

/-- Tag of the door's mechanism. -/
def doorKem : UInt16 := 3

/-- Tag of the door's key-agreement key. -/
def doorPublic : UInt16 := 4

/-- Tag of the door's signing key. -/
def doorVerify : UInt16 := 5

/-- Tag of the file list. -/
def entries : UInt16 := 6

/-- Tag of the issuance time. -/
def issuedAt : UInt16 := 7

/-- Tag of the expiration time. -/
def expiresAt : UInt16 := 8

/-- Tag of the policy restriction. -/
def tightening : UInt16 := 9

/-- Tag of the delegation depth limit. -/
def maxDepth : UInt16 := 10

/-- Tag of the author key. -/
def authorKey : UInt16 := 11

end Tag

namespace LinkTag

/-- Tag of the chain root. -/
def grantId : UInt16 := 1

/-- Tag of who delegates. -/
def parentFpr : UInt16 := 2

/-- Tag of the descendant's fingerprint. -/
def childFpr : UInt16 := 3

/-- Tag of the descendant's mechanism. -/
def childKem : UInt16 := 4

/-- Tag of the descendant's key-agreement key. -/
def childPublic : UInt16 := 5

/-- Tag of the descendant's signing key. -/
def childVerify : UInt16 := 6

/-- Tag of the file list. -/
def entries : UInt16 := 7

/-- Tag of the expiration time. -/
def expiresAt : UInt16 := 8

/-- Tag of the policy restriction. -/
def tightening : UInt16 := 9

/-- Tag of the links allowed below. -/
def depth : UInt16 := 10

/-- Tag of the descendant's actions, optional by its range. -/
def actions : UInt16 := 0x8001

end LinkTag

namespace EntryTag

/-- Tag of the file. -/
def fileId : UInt16 := 1

/-- Tag of the encapsulated key. -/
def enc : UInt16 := 2

/-- Tag of the nonce. -/
def nonce : UInt16 := 3

/-- Tag of the ciphertext. -/
def ct : UInt16 := 4

end EntryTag

/-! ### Documents -/

/-- Sealed block: the same shape as a slot and the server share. -/
structure Blob where
  enc : List UInt8
  nonce : List.Vector UInt8 24
  ct : List UInt8
  deriving DecidableEq

/-- One grant file: its name, and a share sealed to the holder's key. -/
structure Entry where
  fileId : List.Vector UInt8 16
  shareB : Blob
  deriving DecidableEq

/-- An agent grant, signed by the author. -/
structure AgentGrant where
  grantId : List.Vector UInt8 16
  doorFpr : Digest
  doorKem : UInt8
  doorPublic : List UInt8
  doorVerify : Digest
  entries : List Entry
  issuedAt : Int64
  expiresAt : Int64
  tightening : Option Policy
  maxDepth : UInt8
  authorKey : Digest
  signature : Signature
  deriving DecidableEq

/-- Delegation, signed with the parent's key. -/
structure Delegation where
  grantId : List.Vector UInt8 16
  parentFpr : Digest
  childFpr : Digest
  childKem : UInt8
  childPublic : List UInt8
  childVerify : Digest
  entries : List Entry
  expiresAt : Int64
  tightening : Option Policy
  depth : UInt8
  actions : List ActionRule
  signature : Signature
  deriving DecidableEq

/-! ### Shapes -/

variable (sha : Sha2)

/-- The holder name identifies the presented key. -/
def checkHolderName (fpr : Digest) (kem : UInt8) (publicKey : List UInt8) (kemTag fprTag : UInt16) :
    Except FormatError Unit := do
  refuseIf (kem ≠ doorKemX25519) (.badFieldLength kemTag 1)
  let alg ← (KemAlg.fromU8 kem).mapError fun _ ↦ .badFieldLength kemTag 1
  let named ← (Kdf.deviceFpr sha alg publicKey).mapError fun _ ↦
    .badFieldLength fprTag publicKey.length
  refuseIf (fpr ≠ named) (.badFieldLength fprTag 32)

/-- The order of files: by their bytes. -/
def fileLt (a b : Entry) : Bool := a.fileId.toList < b.fileId.toList

/-- File list: within the cap, strictly increasing by file. -/
def checkEntries (entries : List Entry) (listTag : UInt16) : Except FormatError Unit := do
  refuseIf (maxGrantFiles < entries.length) (.badFieldLength listTag entries.length)
  checkAscending 0 entries
where
  /-- A refusal names the first pair that does not increase. -/
  checkAscending : ℕ → List Entry → Except FormatError Unit
    | index, a :: b :: rest =>
      if fileLt a b then checkAscending (index + 1) (b :: rest)
      else
        let previous := if index < 2 ^ 16 then UInt16.ofNat index else 0xffff
        .error (.fieldsOutOfOrder previous
          (UInt16.ofNat (min (previous.toNat + 1) (2 ^ 16 - 1))))
    | _, _ => .ok ()

/-- Shape checks of a grant, shared by writing and reading. -/
def checkGrantShape (grant : AgentGrant) : Except FormatError Unit := do
  checkHolderName sha grant.doorFpr grant.doorKem grant.doorPublic Tag.doorKem Tag.doorFpr
  checkEntries grant.entries Tag.entries
  refuseIf (maxGrantDepth < grant.maxDepth) (.badFieldLength Tag.maxDepth grant.maxDepth.toNat)
  refuseIf (grant.expiresAt < grant.issuedAt) (.badFieldLength Tag.expiresAt 8)

/-- Shape checks of a link, shared by writing and reading. -/
def checkDelegationShape (link : Delegation) : Except FormatError Unit := do
  checkHolderName sha link.childFpr link.childKem link.childPublic LinkTag.childKem
    LinkTag.childFpr
  checkEntries link.entries LinkTag.entries
  refuseIf (maxGrantDepth < link.depth) (.badFieldLength LinkTag.depth link.depth.toNat)
  refuseIf (maxActionRules < link.actions.length)
    (.badFieldLength LinkTag.actions link.actions.length)
  link.actions.forM checkRuleShape

/-! ### The codec of entries and restrictions -/

/-- The bytes of one entry. -/
def encodeEntry (entry : Entry) : Except FormatError (List UInt8) := do
  let w ← TlvWriter.new.put EntryTag.fileId entry.fileId.toList
  let w ← w.put EntryTag.enc entry.shareB.enc
  let w ← w.put EntryTag.nonce entry.shareB.nonce.toList
  let w ← w.put EntryTag.ct entry.shareB.ct
  .ok w.finish

/-- The record of an entry: its number and its bytes. -/
def entryRecord (index : ℕ) (entry : Entry) : Except FormatError (UInt16 × List UInt8) := do
  let tag ← indexTag index
  let body ← encodeEntry entry
  .ok (tag, body)

/-- List entries: nested records numbered by position. -/
def encodeEntries (entries : List Entry) : Except FormatError (List UInt8) :=
  TlvWriter.writeEach entryRecord entries

/-- The entry read so far. -/
structure EntryReading where
  fileId : Option (List.Vector UInt8 16) := none
  enc : Option (List UInt8) := none
  nonce : Option (List.Vector UInt8 24) := none
  ct : Option (List UInt8) := none

/-- One field of an entry, by the tags of `EntryTag`. -/
def decodeEntryStep (acc : EntryReading) (f : Field) : Except FormatError EntryReading :=
  match f.tag with
  | 1 => (f.array 16).map fun v ↦ { acc with fileId := some v }
  | 2 => .ok { acc with enc := some f.value }
  | 3 => (f.array 24).map fun v ↦ { acc with nonce := some v }
  | 4 => .ok { acc with ct := some f.value }
  | other => skipUnknown other acc

/-- Parse an entry. -/
def decodeEntry (bytes : List UInt8) : Except FormatError Entry := do
  let acc ← TlvReader.foldFields decodeEntryStep (TlvReader.new bytes) {}
  let fileId ← okOr acc.fileId (.missingField EntryTag.fileId)
  let enc ← okOr acc.enc (.missingField EntryTag.enc)
  let nonce ← okOr acc.nonce (.missingField EntryTag.nonce)
  let ct ← okOr acc.ct (.missingField EntryTag.ct)
  .ok ⟨fileId, ⟨enc, nonce, ct⟩⟩

/-- Parse a file list; the cap is checked before each entry. -/
def decodeEntries (bytes : List UInt8) (listTag : UInt16) : Except FormatError (List Entry) := do
  let entries ← TlvReader.collect maxGrantFiles (.badFieldLength listTag) decodeEntry bytes []
  checkEntries entries listTag
  .ok entries

/-- Restrictions use the codec of the server policy. -/
def encodeTightening (policy : Policy) : Except FormatError (List UInt8) :=
  PolicyCodec.encode containerVersion policy

/-- Parse a restriction. -/
def decodeTightening (bytes : List UInt8) : Except FormatError Policy :=
  PolicyCodec.decode supportedReaderVersion bytes

/-- The bytes of an optional restriction. -/
def encodeTighteningOpt : Option Policy → Except FormatError (Option (List UInt8))
  | some policy => (encodeTightening policy).map some
  | none => .ok none

/-! ### The codec of grants -/

/-- Grant bytes without the signature. -/
def grantBody (grant : AgentGrant) : Except FormatError (List UInt8) := do
  checkGrantShape sha grant
  let w ← TlvWriter.new.put Tag.grantId grant.grantId.toList
  let w ← w.put Tag.doorFpr grant.doorFpr.toList
  let w ← w.put Tag.doorKem [grant.doorKem]
  let w ← w.put Tag.doorPublic grant.doorPublic
  let w ← w.put Tag.doorVerify grant.doorVerify.toList
  let entries ← encodeEntries grant.entries
  let w ← w.put Tag.entries entries
  let w ← w.put Tag.issuedAt (toLeBytes grant.issuedAt)
  let w ← w.put Tag.expiresAt (toLeBytes grant.expiresAt)
  let tightening ← encodeTighteningOpt grant.tightening
  let w ← w.putOpt Tag.tightening tightening
  let w ← w.put Tag.maxDepth [grant.maxDepth]
  let w ← w.put Tag.authorKey grant.authorKey.toList
  .ok w.finish

/-- Grant signature transcript. -/
def grantTranscript (body : List UInt8) : Transcript := (Transcript.new .agentGrant).field body

/-- Encode the complete grant: the signature and the body. -/
def encodeGrant (grant : AgentGrant) : Except FormatError (List UInt8) := do
  let body ← grantBody sha grant
  .ok (grant.signature.toList ++ body)

/-- The grant read so far. -/
structure GrantReading where
  grantId : Option (List.Vector UInt8 16) := none
  doorFpr : Option Digest := none
  doorKem : Option UInt8 := none
  doorPublic : Option (List UInt8) := none
  doorVerify : Option Digest := none
  entries : Option (List Entry) := none
  issuedAt : Option Int64 := none
  expiresAt : Option Int64 := none
  tightening : Option Policy := none
  maxDepth : Option UInt8 := none
  authorKey : Option Digest := none

/-- One field of a grant, by the tags of `Tag`. -/
def decodeGrantStep (acc : GrantReading) (f : Field) : Except FormatError GrantReading :=
  match f.tag with
  | 1 => (f.array 16).map fun v ↦ { acc with grantId := some v }
  | 2 => (f.array 32).map fun v ↦ { acc with doorFpr := some v }
  | 3 => f.u8.map fun v ↦ { acc with doorKem := some v }
  | 4 => .ok { acc with doorPublic := some f.value }
  | 5 => (f.array 32).map fun v ↦ { acc with doorVerify := some v }
  | 6 => (decodeEntries f.value Tag.entries).map fun v ↦ { acc with entries := some v }
  | 7 => f.le.map fun v ↦ { acc with issuedAt := some v }
  | 8 => f.le.map fun v ↦ { acc with expiresAt := some v }
  | 9 => (decodeTightening f.value).map fun v ↦ { acc with tightening := some v }
  | 10 => f.u8.map fun v ↦ { acc with maxDepth := some v }
  | 11 => (f.array 32).map fun v ↦ { acc with authorKey := some v }
  | other => skipUnknown other acc

/-- Parse a grant body; the signature lies outside it. -/
def decodeGrantBody (signature : Signature) (body : List UInt8) :
    Except FormatError AgentGrant := do
  let acc ← TlvReader.foldFields decodeGrantStep (TlvReader.new body) {}
  let grantId ← okOr acc.grantId (.missingField Tag.grantId)
  let doorFpr ← okOr acc.doorFpr (.missingField Tag.doorFpr)
  let doorKem ← okOr acc.doorKem (.missingField Tag.doorKem)
  let doorPublic ← okOr acc.doorPublic (.missingField Tag.doorPublic)
  let doorVerify ← okOr acc.doorVerify (.missingField Tag.doorVerify)
  let entries ← okOr acc.entries (.missingField Tag.entries)
  let issuedAt ← okOr acc.issuedAt (.missingField Tag.issuedAt)
  let expiresAt ← okOr acc.expiresAt (.missingField Tag.expiresAt)
  let maxDepth ← okOr acc.maxDepth (.missingField Tag.maxDepth)
  let authorKey ← okOr acc.authorKey (.missingField Tag.authorKey)
  let grant : AgentGrant := ⟨grantId, doorFpr, doorKem, doorPublic, doorVerify, entries, issuedAt,
    expiresAt, acc.tightening, maxDepth, authorKey, signature⟩
  checkGrantShape sha grant
  .ok grant

variable (ed : Ed25519)

/-- Verify the author's signature, then parse: in this order only. -/
def decodeGrant (bytes : List UInt8) (authorKey : Digest) : Except FormatError AgentGrant := do
  let (signature, body) ← splitSignature bytes
  (verify ed authorKey (grantTranscript body) signature).mapError fun _ ↦ .badHeaderSignature
  let grant ← decodeGrantBody sha signature body
  refuseIf (grant.authorKey ≠ authorKey) (.badFieldLength Tag.authorKey 32)
  .ok grant

/-! ### The codec of links -/

/-- Delegation bytes without the signature. -/
def delegationBody (link : Delegation) : Except FormatError (List UInt8) := do
  checkDelegationShape sha link
  let w ← TlvWriter.new.put LinkTag.grantId link.grantId.toList
  let w ← w.put LinkTag.parentFpr link.parentFpr.toList
  let w ← w.put LinkTag.childFpr link.childFpr.toList
  let w ← w.put LinkTag.childKem [link.childKem]
  let w ← w.put LinkTag.childPublic link.childPublic
  let w ← w.put LinkTag.childVerify link.childVerify.toList
  let entries ← encodeEntries link.entries
  let w ← w.put LinkTag.entries entries
  let w ← w.put LinkTag.expiresAt (toLeBytes link.expiresAt)
  let tightening ← encodeTighteningOpt link.tightening
  let w ← w.putOpt LinkTag.tightening tightening
  let w ← w.put LinkTag.depth [link.depth]
  -- no actions and an empty list mean the same, and only one of them is written
  if link.actions = [] then .ok w.finish
  else do
    let actions ← Action.encodeRules link.actions
    let w ← w.put LinkTag.actions actions
    .ok w.finish

/-- Delegation signature transcript. -/
def delegationTranscript (body : List UInt8) : Transcript := (Transcript.new .delegation).field body

/-- Encode the complete delegation: the signature and the body. -/
def encodeDelegation (link : Delegation) : Except FormatError (List UInt8) := do
  let body ← delegationBody sha link
  .ok (link.signature.toList ++ body)

/-- The link read so far. -/
structure LinkReading where
  grantId : Option (List.Vector UInt8 16) := none
  parentFpr : Option Digest := none
  childFpr : Option Digest := none
  childKem : Option UInt8 := none
  childPublic : Option (List UInt8) := none
  childVerify : Option Digest := none
  entries : Option (List Entry) := none
  expiresAt : Option Int64 := none
  tightening : Option Policy := none
  depth : Option UInt8 := none
  actions : List ActionRule := []

/-- One field of a link, by the tags of `LinkTag`. -/
def decodeDelegationStep (acc : LinkReading) (f : Field) : Except FormatError LinkReading :=
  match f.tag with
  | 1 => (f.array 16).map fun v ↦ { acc with grantId := some v }
  | 2 => (f.array 32).map fun v ↦ { acc with parentFpr := some v }
  | 3 => (f.array 32).map fun v ↦ { acc with childFpr := some v }
  | 4 => f.u8.map fun v ↦ { acc with childKem := some v }
  | 5 => .ok { acc with childPublic := some f.value }
  | 6 => (f.array 32).map fun v ↦ { acc with childVerify := some v }
  | 7 => (decodeEntries f.value LinkTag.entries).map fun v ↦ { acc with entries := some v }
  | 8 => f.le.map fun v ↦ { acc with expiresAt := some v }
  | 9 => (decodeTightening f.value).map fun v ↦ { acc with tightening := some v }
  | 10 => f.u8.map fun v ↦ { acc with depth := some v }
  | 0x8001 => (Action.decodeRules f.value).map fun v ↦ { acc with actions := v }
  | other => skipUnknown other acc

/-- The tags of a link. -/
def linkTags : List UInt16 := [1, 2, 3, 4, 5, 6, 7, 8, 9, 10, LinkTag.actions]

theorem recordStep_decodeDelegationStep : RecordStep linkTags decodeDelegationStep where
  span_free _ _ _ _ _ := rfl
  skips acc tag value span h := by
    unfold decodeDelegationStep
    split <;> first | rfl | simp_all [linkTags, LinkTag.actions]

/-- Parse a link body; the signature lies outside it. -/
def decodeDelegationBody (signature : Signature) (body : List UInt8) :
    Except FormatError Delegation := do
  let acc ← TlvReader.foldFields decodeDelegationStep (TlvReader.new body) {}
  let grantId ← okOr acc.grantId (.missingField LinkTag.grantId)
  let parentFpr ← okOr acc.parentFpr (.missingField LinkTag.parentFpr)
  let childFpr ← okOr acc.childFpr (.missingField LinkTag.childFpr)
  let childKem ← okOr acc.childKem (.missingField LinkTag.childKem)
  let childPublic ← okOr acc.childPublic (.missingField LinkTag.childPublic)
  let childVerify ← okOr acc.childVerify (.missingField LinkTag.childVerify)
  let entries ← okOr acc.entries (.missingField LinkTag.entries)
  let expiresAt ← okOr acc.expiresAt (.missingField LinkTag.expiresAt)
  let depth ← okOr acc.depth (.missingField LinkTag.depth)
  let link : Delegation := ⟨grantId, parentFpr, childFpr, childKem, childPublic, childVerify, entries,
    expiresAt, acc.tightening, depth, acc.actions, signature⟩
  checkDelegationShape sha link
  .ok link

/-- Verify the parent's signature, then parse: in this order only. -/
def decodeDelegation (bytes : List UInt8) (parentVerify : Digest) :
    Except FormatError Delegation := do
  let (signature, body) ← splitSignature bytes
  (verify ed parentVerify (delegationTranscript body) signature).mapError fun _ ↦
    .badHeaderSignature
  decodeDelegationBody sha signature body

/-! ### Chains -/

/-- Verified access facts for the final link. -/
structure ChainFacts where
  grantId : List.Vector UInt8 16
  holderFpr : Digest
  holderVerify : Digest
  files : List (List.Vector UInt8 16)
  expiresAt : Int64
  /-- All chain restrictions from the root onward. -/
  tightening : List Policy
  depthLeft : UInt8
  /-- Actions permitted for the last link. -/
  actions : List ActionRule
  deriving DecidableEq

/-- Why the chain was rejected. -/
inductive ChainRefusal where
  | badGrant
  | badLink (index : ℕ)
  | notASubset (index : ℕ)
  | outlivesParent (index : ℕ)
  | depthExhausted (index : ℕ)
  | wrongParent (index : ℕ)
  | expired
  | notYetValid
  | badActionGrant
  | actionsWrongGrant
  | actionsOutliveGrant
  | actionNotGranted (index : ℕ)
  | actionWidens (index : ℕ) (why : ActionRefusal)
  deriving DecidableEq

/-- Why none of the parents' rules permits the child: the first one's reason. -/
def firstReason (parents : List ActionRule) (child : ActionRule) : ActionRefusal :=
  match parents.head? with
  | some parent =>
    match narrower child parent with
    | .error why => why
    | .ok _ => .wrongKind
  | none => .wrongKind

/-- Check that each child rule narrows at least one parent rule of the same kind. -/
def narrowActions (parents children : List ActionRule) (index : ℕ) :
    Except ChainRefusal (List ActionRule) := do
  children.forM fun child ↦ do
    let sameKind := parents.filter fun p ↦ p.kind = child.kind
    refuseIf (sameKind = []) (.actionNotGranted index)
    refuseIf (¬∃ parent ∈ sameKind, narrower child parent = .ok ())
      (.actionWidens index (firstReason sameKind child))
  .ok children

/-- The rules of the action grant, checked against the file grant. -/
def rootActions (grant : AgentGrant) (authorKey : Digest) (actions : Option (List UInt8))
    (now : Int64) : Except ChainRefusal (List ActionRule) :=
  match actions with
  | none => .ok []
  | some bytes => do
    let signed ← (Action.decodeGrant ed bytes authorKey).mapError fun _ ↦ .badActionGrant
    refuseIf (signed.grantId ≠ grant.grantId) .actionsWrongGrant
    refuseIf (grant.expiresAt < signed.expiresAt) .actionsOutliveGrant
    refuseIf (now < signed.issuedAt) .notYetValid
    refuseIf (signed.expiresAt < now) .expired
    .ok signed.rules

/-- The facts of a grant without links. -/
def rootFacts (grant : AgentGrant) (actions : List ActionRule) : ChainFacts where
  grantId := grant.grantId
  holderFpr := grant.doorFpr
  holderVerify := grant.doorVerify
  files := grant.entries.map Entry.fileId
  expiresAt := grant.expiresAt
  tightening := grant.tightening.toList
  depthLeft := grant.maxDepth
  actions := actions

/-- The actions of a link: with no action grant there is nothing to check them against, and none are
permitted. -/
def linkActions (withActions : Bool) (parents children : List ActionRule) (index : ℕ) :
    Except ChainRefusal (List ActionRule) :=
  if withActions then narrowActions parents children index else .ok []

/-- One link, against the facts of the link before it. -/
def linkStep (withActions : Bool) (now : Int64) (facts : ChainFacts) (indexed : List UInt8 × ℕ) :
    Except ChainRefusal ChainFacts := do
  let (raw, index) := indexed
  let link ← (decodeDelegation sha ed raw facts.holderVerify).mapError fun _ ↦ .badLink index
  refuseIf (link.grantId ≠ facts.grantId ∨ link.parentFpr ≠ facts.holderFpr) (.wrongParent index)
  refuseIf (facts.depthLeft = 0 ∨ facts.depthLeft ≤ link.depth) (.depthExhausted index)
  refuseIf (¬∀ entry ∈ link.entries, entry.fileId ∈ facts.files) (.notASubset index)
  refuseIf (facts.expiresAt < link.expiresAt) (.outlivesParent index)
  refuseIf (link.expiresAt < now) .expired
  let actions ← linkActions withActions facts.actions link.actions index
  .ok
    { facts with
      holderFpr := link.childFpr
      holderVerify := link.childVerify
      files := link.entries.map Entry.fileId
      expiresAt := link.expiresAt
      tightening := facts.tightening ++ link.tightening.toList
      depthLeft := link.depth
      actions := actions }

/-- Verify a grant chain with an optional action grant. -/
def verifyGrantChainWithActions (authorKey : Digest) (grant : List UInt8)
    (links : List (List UInt8)) (actions : Option (List UInt8)) (now : Int64) :
    Except ChainRefusal ChainFacts := do
  let grant ← (decodeGrant sha ed grant authorKey).mapError fun _ ↦ .badGrant
  refuseIf (now < grant.issuedAt) .notYetValid
  refuseIf (grant.expiresAt < now) .expired
  let root ← rootActions ed grant authorKey actions now
  links.zipIdx.foldlM (linkStep sha ed actions.isSome now) (rootFacts grant root)

/-- Verify the chain without actions. -/
def verifyGrantChain (authorKey : Digest) (grant : List UInt8) (links : List (List UInt8))
    (now : Int64) : Except ChainRefusal ChainFacts :=
  verifyGrantChainWithActions sha ed authorKey grant links none now

end Agent

end OpenCrate.Protocol
