import OpenCrate.Protocol.AgentRoundTrip
import OpenCrate.Protocol.ApprovedArgs
import OpenCrate.Protocol.Access
import OpenCrate.Protocol.Attestation
import OpenCrate.Protocol.AttributeRule
import OpenCrate.Protocol.Directory
import OpenCrate.Protocol.Handshake
import OpenCrate.Protocol.Lease
import OpenCrate.Protocol.OrderRoundTrip
import OpenCrate.Protocol.Replica
import OpenCrate.Protocol.Revocation
import OpenCrate.Protocol.StandingRoundTrip
import OpenCrate.Protocol.Transparency

/-!
# Unknown tags in the documents of the protocol

Every parser of `oc-protocol` passes over the optional tags it does not know and refuses the critical ones
(`routes_unknown_tags`). Twenty-eight parsers do that by hand; what they have in common is the form of
their loops, so that one lemma of `Transparency` settles each of them.
-/

namespace OpenCrate.Protocol

open OpenCrate.Format OpenCrate.Crypto
open Except (refuseIf okOr)

variable {sha : Sha2} {ed : Ed25519}

/-! ### Documents behind a signature -/

/-- A signature that the value does not keep. -/
def unsigned {α : Type} (_ : Signature) (a : α) : α := a

/-- A signature is split off a document of any length. -/
theorem splitSignature_iff {bytes body : List UInt8} {sig : Signature} :
    splitSignature bytes = .ok (sig, body) ↔ bytes = sig.toList ++ body ∧ True := by
  rw [and_true, splitSignature_eq_ok_iff]

/-- The documents of the protocol, one after the other: those whose verifier keeps the body as it is. -/
theorem Lease.transparent_verifySigned :
    SignedTransparent ed Lease.tags (fun _ ↦ True) Lease.signingTranscript unsigned (Lease.verifySigned ed) :=
  .of_verified (fun _ ↦ Lease.decode) (fun _ _ ↦ True) splitSignature_iff
    (fun _ ↦ .of_recordStep Lease.recordStep_decodeStep _ _) (fun _ ↦ (and_iff_left trivial).symm) id id

theorem Revocation.transparent_verifySigned :
    SignedTransparent ed Revocation.tags (fun _ ↦ True) Revocation.signingTranscript unsigned
      (Revocation.verifySigned ed) :=
  .of_verified (fun _ ↦ Revocation.decode) (fun _ _ ↦ True) splitSignature_iff
    (fun _ ↦ .of_recordStep Revocation.recordStep_decodeStep _ _) (fun _ ↦ (and_iff_left trivial).symm) id id

theorem Order.transparent_verifySigned :
    SignedTransparent ed Order.tags (fun _ ↦ True) Order.signingTranscript unsigned (Order.verifySigned ed) :=
  .of_verified (fun _ ↦ Order.decode) (fun _ _ ↦ True) splitSignature_iff
    (fun _ ↦ .of_recordStep Order.recordStep_decodeStep _ _) (fun _ ↦ (and_iff_left trivial).symm) id id

namespace Agent

/-- The signature of a grant is kept in the value, and has no other part in it. -/
theorem decodeGrantBody_resign {sig sig' : Signature} {body : List UInt8} {grant : AgentGrant}
    (h : decodeGrantBody sha sig body = .ok grant) :
    decodeGrantBody sha sig' body = .ok { grant with signature := sig' } := by
  simp only [decodeGrantBody, Except.bind_eq_ok_iff] at h ⊢
  obtain ⟨acc, hacc, a₁, h₁, a₂, h₂, a₃, h₃, a₄, h₄, a₅, h₅, a₆, h₆, a₇, h₇, a₈, h₈, a₉, h₉, a₁₀, h₁₀, ⟨⟩,
    hshape, h⟩ := h
  obtain rfl := Except.ok.inj h
  exact ⟨acc, hacc, a₁, h₁, a₂, h₂, a₃, h₃, a₄, h₄, a₅, h₅, a₆, h₆, a₇, h₇, a₈, h₈, a₉, h₉, a₁₀, h₁₀, (),
    hshape, rfl⟩

theorem transparent_decodeGrant :
    SignedTransparent ed [1, 2, 3, 4, 5, 6, 7, 8, 9, 10, 11] (fun _ ↦ True) grantTranscript
      (fun sig grant ↦ { grant with signature := sig }) (decodeGrant sha ed) :=
  .of_verified (decodeGrantBody sha) (fun key grant ↦ grant.authorKey = key) splitSignature_iff
    (fun _ ↦ .of_recordStep recordStep_decodeGrantStep _ _) (fun _ ↦ named_eq_ok_iff) decodeGrantBody_resign id

/-- It is so with a delegation. -/
theorem decodeDelegationBody_resign {sig sig' : Signature} {body : List UInt8} {link : Delegation}
    (h : decodeDelegationBody sha sig body = .ok link) :
    decodeDelegationBody sha sig' body = .ok { link with signature := sig' } := by
  simp only [decodeDelegationBody, Except.bind_eq_ok_iff] at h ⊢
  obtain ⟨acc, hacc, a₁, h₁, a₂, h₂, a₃, h₃, a₄, h₄, a₅, h₅, a₆, h₆, a₇, h₇, a₈, h₈, a₉, h₉, ⟨⟩, hshape,
    h⟩ := h
  obtain rfl := Except.ok.inj h
  exact ⟨acc, hacc, a₁, h₁, a₂, h₂, a₃, h₃, a₄, h₄, a₅, h₅, a₆, h₆, a₇, h₇, a₈, h₈, a₉, h₉, (), hshape, rfl⟩

theorem transparent_decodeDelegation :
    SignedTransparent ed linkTags (fun _ ↦ True) delegationTranscript
      (fun sig link ↦ { link with signature := sig }) (decodeDelegation sha ed) :=
  .of_verified (decodeDelegationBody sha) (fun _ _ ↦ True) splitSignature_iff
    (fun _ ↦ .of_recordStep recordStep_decodeDelegationStep _ _) (fun _ ↦ (and_iff_left trivial).symm)
    decodeDelegationBody_resign id

end Agent

namespace Action

/-- And with the three documents of an action. -/
theorem decodeGrantBody_resign {sig sig' : Signature} {body : List UInt8} {grant : ActionGrant}
    (h : decodeGrantBody sig body = .ok grant) :
    decodeGrantBody sig' body = .ok { grant with signature := sig' } := by
  simp only [decodeGrantBody, Except.bind_eq_ok_iff] at h ⊢
  obtain ⟨acc, hacc, a₁, h₁, a₂, h₂, a₃, h₃, a₄, h₄, a₅, h₅, ⟨⟩, hshape, h⟩ := h
  obtain rfl := Except.ok.inj h
  exact ⟨acc, hacc, a₁, h₁, a₂, h₂, a₃, h₃, a₄, h₄, a₅, h₅, (), hshape, rfl⟩

theorem decodeLeaseBody_resign {sig sig' : Signature} {body : List UInt8} {lease : ActionLease}
    (h : decodeLeaseBody sig body = .ok lease) :
    decodeLeaseBody sig' body = .ok { lease with signature := sig' } := by
  simp only [decodeLeaseBody, Except.bind_eq_ok_iff] at h ⊢
  obtain ⟨acc, hacc, a₁, h₁, a₂, h₂, a₃, h₃, a₄, h₄, a₅, h₅, a₆, h₆, a₇, h₇, a₈, h₈, a₉, h₉, ⟨⟩, hshape,
    h⟩ := h
  obtain rfl := Except.ok.inj h
  exact ⟨acc, hacc, a₁, h₁, a₂, h₂, a₃, h₃, a₄, h₄, a₅, h₅, a₆, h₆, a₇, h₇, a₈, h₈, a₉, h₉, (), hshape, rfl⟩

theorem decodeDecisionBody_resign {sig sig' : Signature} {body : List UInt8} {decision : ActionDecision}
    (h : decodeDecisionBody sig body = .ok decision) :
    decodeDecisionBody sig' body = .ok { decision with signature := sig' } := by
  simp only [decodeDecisionBody, Except.bind_eq_ok_iff] at h ⊢
  obtain ⟨acc, hacc, a₁, h₁, a₂, h₂, a₃, h₃, a₄, h₄, a₅, h₅, a₆, h₆, h⟩ := h
  obtain rfl := Except.ok.inj h
  exact ⟨acc, hacc, a₁, h₁, a₂, h₂, a₃, h₃, a₄, h₄, a₅, h₅, a₆, h₆, rfl⟩

theorem transparent_decodeGrant :
    SignedTransparent ed [1, 2, 3, 4, 5] (fun _ ↦ True) grantTranscript
      (fun sig grant ↦ { grant with signature := sig }) (decodeGrant ed) :=
  .of_verified decodeGrantBody (fun key a ↦ a.authorKey = key) splitSignature_iff
    (fun _ ↦ .of_recordStep recordStep_decodeGrantStep _ _) (fun _ ↦ named_eq_ok_iff) decodeGrantBody_resign id

theorem transparent_decodeLease :
    SignedTransparent ed [1, 2, 3, 4, 5, 6, 7, 8] (fun _ ↦ True) leaseTranscript
      (fun sig lease ↦ { lease with signature := sig }) (decodeLease ed) :=
  .of_verified decodeLeaseBody (fun _ _ ↦ True) splitSignature_iff
    (fun _ ↦ .of_recordStep recordStep_decodeLeaseStep _ _) (fun _ ↦ (and_iff_left trivial).symm)
    decodeLeaseBody_resign id

theorem transparent_decodeDecision :
    SignedTransparent ed [1, 2, 3, 4, 5, 6] (fun _ ↦ True) decisionTranscript
      (fun sig decision ↦ { decision with signature := sig }) (decodeDecision ed) :=
  .of_verified decodeDecisionBody (fun key a ↦ a.authorKey = key) splitSignature_iff
    (fun _ ↦ .of_recordStep recordStep_decodeDecisionStep _ _) (fun _ ↦ named_eq_ok_iff)
    decodeDecisionBody_resign id

end Action

namespace Replica

theorem splitSigned_iff {bytes body : List UInt8} {sig : Signature} :
    splitSigned bytes = .ok (sig, body) ↔ bytes = sig.toList ++ body ∧ True := by
  rw [and_true, splitSigned_eq_ok_iff]

/-- The documents of a replica. -/
theorem Push.transparent_open :
    SignedTransparent ed Push.tags (fun _ ↦ True) (transcript .replicaPush) unsigned
      (Push.open_ sha ed) :=
  .of_verified (fun _ ↦ Push.decodeBody sha) (fun _ _ ↦ True) splitSigned_iff
    (fun _ ↦ .of_recordStep Push.recordStep_decodeStep _ _) (fun _ ↦ (and_iff_left trivial).symm) id id

theorem Ack.transparent_open :
    SignedTransparent ed Ack.tags (fun _ ↦ True) (transcript .replicaAck) unsigned (Ack.open_ ed) :=
  .of_verified (fun _ ↦ Ack.decodeBody) (fun key ack ↦ ack.replica = key) splitSigned_iff
    (fun _ ↦ .of_recordStep Ack.recordStep_decodeStep _ _) (fun _ ↦ named_eq_ok_iff) id id

end Replica

namespace Control

/-- What a binding is read from, without its signature. -/
theorem Binding.peek_of_splitSigned {bytes body : List UInt8} {sig : Signature}
    (h : splitSigned bytes = .ok (sig, body)) :
    Binding.peek bytes =
      decodeCanonical Binding.peekStep {} Binding.Reading.binding Binding.body (bad 0) body := by
  rw [Binding.peek, h, Except.ok_bind]

/-- The checks of a binding are about its body. -/
theorem Binding.open_of_splitSigned {bytes body : List UInt8} {sig : Signature} {key : Digest}
    {binding : Binding} (h : splitSigned bytes = .ok (sig, body)) :
    (do
      let binding ← Binding.peek bytes
      refuseIf (binding.leasePublic ≠ key) (bad BindingTag.leasePublic 32)
      .ok binding) = .ok binding ↔
      decodeCanonical Binding.peekStep {} Binding.Reading.binding Binding.body (bad 0) body = .ok binding ∧
        binding.leasePublic = key := by
  rw [← Binding.peek_of_splitSigned h]
  exact named_eq_ok_iff

/-- The documents of an authority, which have a bounded length. -/
theorem Binding.transparent_open :
    SignedTransparent ed Binding.tags (fun bytes ↦ bytes.length ≤ maxDocumentLen)
      (transcript .authorityBinding) unsigned (Binding.open_ ed) :=
  .of_verified
    (fun _ ↦ decodeCanonical Binding.peekStep {} Binding.Reading.binding Binding.body (bad 0))
    (fun key binding ↦ binding.leasePublic = key) splitSigned_eq_ok_iff
    (fun _ ↦ .of_canonicalStep Binding.canonicalStep_peekStep) Binding.open_of_splitSigned id id

theorem Receipt.transparent_open :
    SignedTransparent ed Receipt.tags (fun bytes ↦ bytes.length ≤ maxDocumentLen)
      (transcript .operationReceipt) unsigned (Receipt.open_ ed) :=
  .of_verified (fun _ ↦ Receipt.decodeBody) (fun _ _ ↦ True) splitSigned_eq_ok_iff
    (fun _ ↦ .of_canonicalStep Receipt.canonicalStep_openStep) (fun _ ↦ (and_iff_left trivial).symm) id id

/-- An opened request, signed again. -/
def SignedRequest.reseal (sha : Sha2) (signers : List Digest) (body : List UInt8) (opened : SignedRequest) :
    SignedRequest :=
  ⟨opened.request, sha.sha256 body, signers⟩

/-- The documents with several signatures. -/
theorem transparent_openRequest :
    EnvelopeTransparent ed ControlRequest.tags .controlRequest (SignedRequest.reseal sha)
      (openRequest sha ed) := by
  refine .of_body ControlRequest.decodeBody SignedRequest.request ?_
    (.of_canonicalStep ControlRequest.canonicalStep_decodeStep) rfl rfl
  intro bytes opened
  rw [openRequest_eq_ok_iff]
  refine exists_congr fun signatures ↦ exists_congr fun body ↦ ?_
  refine and_congr_right fun _ ↦ and_congr_right fun _ ↦ and_congr_right fun _ ↦ ?_
  obtain ⟨request, bodyHash, signers⟩ := opened
  simp only [SignedRequest.reseal, SignedRequest.mk.injEq, true_and]

theorem transparent_openTransfer :
    EnvelopeTransparent ed Transfer.tags .authorityTransfer (fun signers _ opened ↦ (opened.1, signers))
      (openTransfer ed) := by
  refine .of_body Transfer.decodeBody Prod.fst ?_ (.of_canonicalStep Transfer.canonicalStep_decodeStep) rfl rfl
  intro bytes opened
  obtain ⟨transfer, signers⟩ := opened
  simp only [openTransfer_eq_ok_iff, Prod.mk.injEq, true_and]

end Control

/-! ### All documents -/

/-- What is read is what is written, the unknown fields left out. -/
def ReadsWritten (known : List UInt16) (body : List UInt8)
    (written : Except FormatError (List UInt8)) : Prop :=
  ∃ bytes, written = .ok bytes ∧ Carries known body bytes

/-- How the documents of the protocol treat unknown tags, one by one. A limit stands where the parser has
one. -/
structure RoutesUnknownTags (sha : Sha2) (ed : Ed25519) : Prop where
  lease : SignedTransparent ed Lease.tags (fun _ ↦ True) Lease.signingTranscript unsigned
    (Lease.verifySigned ed)
  revocation : SignedTransparent ed Revocation.tags (fun _ ↦ True) Revocation.signingTranscript unsigned
    (Revocation.verifySigned ed)
  order : SignedTransparent ed Order.tags (fun _ ↦ True) Order.signingTranscript unsigned
    (Order.verifySigned ed)
  standing : Transparent Standing.tags (fun _ ↦ True) Standing.decode
  accessAsk : Transparent Access.askTags (fun _ ↦ True) Access.decodeAsk
  accessPending : Transparent Access.pendingTags (fun _ ↦ True) Access.decodePending
  activateReq : Transparent Activation.reqTags (fun body ↦ body.length ≤ Activation.maxDocument)
    Activation.decodeReq
  activateGrant : Transparent Activation.grantTags (fun body ↦ body.length ≤ Activation.maxDocument)
    Activation.decodeGrant
  activateDeny : Transparent Activation.denyTags (fun body ↦ body.length ≤ Activation.maxDocument)
    Activation.decodeDeny
  hello : Transparent Activation.helloTags (fun _ ↦ True) Activation.decodeHello
  challenge : Transparent Activation.challengeTags (fun _ ↦ True) Activation.decodeChallenge
  proof : Transparent Activation.proofTags (fun _ ↦ True) Activation.decodeProof
  evidence : Transparent Attestation.tags (fun body ↦ body.length ≤ Activation.maxDocument)
    Attestation.decodeEvidence
  attributeRule : Transparent AttributeRule.tags (fun _ ↦ True) AttributeRule.decode
  agentGrant : SignedTransparent ed [1, 2, 3, 4, 5, 6, 7, 8, 9, 10, 11] (fun _ ↦ True)
    Agent.grantTranscript (fun sig grant ↦ { grant with signature := sig }) (Agent.decodeGrant sha ed)
  delegation : SignedTransparent ed Agent.linkTags (fun _ ↦ True) Agent.delegationTranscript
    (fun sig link ↦ { link with signature := sig }) (Agent.decodeDelegation sha ed)
  actionGrant : SignedTransparent ed [1, 2, 3, 4, 5] (fun _ ↦ True) Action.grantTranscript
    (fun sig grant ↦ { grant with signature := sig }) (Action.decodeGrant ed)
  actionRequest : Transparent [1, 2, 3, 4, 5, 6] (fun _ ↦ True) Action.decodeRequest
  actionLease : SignedTransparent ed [1, 2, 3, 4, 5, 6, 7, 8] (fun _ ↦ True) Action.leaseTranscript
    (fun sig lease ↦ { lease with signature := sig }) (Action.decodeLease ed)
  actionPending : Transparent [1, 2, 3, 4, 5, 6, 7, 8] (fun _ ↦ True) Action.decodePending
  actionDecision : SignedTransparent ed [1, 2, 3, 4, 5, 6] (fun _ ↦ True) Action.decisionTranscript
    (fun sig decision ↦ { decision with signature := sig }) (Action.decodeDecision ed)
  binding : SignedTransparent ed Control.Binding.tags (fun bytes ↦ bytes.length ≤ Control.maxDocumentLen)
    (Control.transcript .authorityBinding) unsigned (Control.Binding.open_ ed)
  request : Control.EnvelopeTransparent ed Control.ControlRequest.tags .controlRequest
    (Control.SignedRequest.reseal sha) (Control.openRequest sha ed)
  receipt : SignedTransparent ed Control.Receipt.tags (fun bytes ↦ bytes.length ≤ Control.maxDocumentLen)
    (Control.transcript .operationReceipt) unsigned (Control.Receipt.open_ ed)
  transfer : Control.EnvelopeTransparent ed Control.Transfer.tags .authorityTransfer
    (fun signers _ opened ↦ (opened.1, signers)) (Control.openTransfer ed)
  push : SignedTransparent ed Replica.Push.tags (fun _ ↦ True) (Replica.transcript .replicaPush) unsigned
    (Replica.Push.open_ sha ed)
  ack : SignedTransparent ed Replica.Ack.tags (fun _ ↦ True) (Replica.transcript .replicaAck) unsigned
    (Replica.Ack.open_ ed)
  record : Transparent Directory.Record.tags (fun body ↦ body.length ≤ Directory.maxRecordLen)
    (Directory.Record.decode sha)
  binding_canonical : ∀ {sig : Signature} {body key b},
    Control.Binding.open_ ed (sig.toList ++ body) key = .ok b →
      ReadsWritten Control.Binding.tags body b.body
  request_canonical : ∀ {bytes signatures body opened},
    Control.splitRequest bytes = .ok (signatures, body) → Control.openRequest sha ed bytes = .ok opened →
      ReadsWritten Control.ControlRequest.tags body opened.request.body
  receipt_canonical : ∀ {sig : Signature} {body key r},
    Control.Receipt.open_ ed (sig.toList ++ body) key = .ok r →
      ReadsWritten Control.Receipt.tags body r.body
  transfer_canonical : ∀ {bytes signatures body transfer signers},
    Control.splitRequest bytes = .ok (signatures, body) →
      Control.openTransfer ed bytes = .ok (transfer, signers) →
        ReadsWritten Control.Transfer.tags body transfer.body
  record_canonical : ∀ {bytes r}, Directory.Record.decode sha bytes = .ok r →
    ReadsWritten Directory.Record.tags bytes (r.encode sha)

/-- **Unknown optional tags are transparent and unknown critical tags are fatal**, for every document of
the protocol. The value that is read keeps of the new bytes only a signature, or the hash of a body. -/
theorem routes_unknown_tags (sha : Sha2) (ed : Ed25519) : RoutesUnknownTags sha ed where
  lease := Lease.transparent_verifySigned
  revocation := Revocation.transparent_verifySigned
  order := Order.transparent_verifySigned
  standing := .of_recordStep Standing.recordStep_decodeStep _ _
  accessAsk := .of_recordStep Access.recordStep_decodeAskStep _ _
  accessPending := .of_recordStep Access.recordStep_decodePendingStep _ _
  activateReq := (Transparent.of_recordStep Activation.recordStep_decodeReqStep _ _).limited _ _
  activateGrant := (Transparent.of_recordStep Activation.recordStep_decodeGrantStep _ _).limited _ _
  activateDeny := (Transparent.of_recordStep Activation.recordStep_decodeDenyStep _ _).limited _ _
  hello := .of_recordStep Activation.recordStep_decodeHelloStep _ _
  challenge := .of_recordStep Activation.recordStep_decodeChallengeStep _ _
  proof := .of_recordStep Activation.recordStep_decodeProofStep _ _
  evidence := (Transparent.of_recordStep Attestation.recordStep_decodeStep _ _).limited _ _
  attributeRule := .of_recordStep AttributeRule.recordStep_decodeStep _ _
  agentGrant := Agent.transparent_decodeGrant
  delegation := Agent.transparent_decodeDelegation
  actionGrant := Action.transparent_decodeGrant
  actionRequest := .of_recordStep Action.recordStep_decodeRequestStep _ _
  actionLease := Action.transparent_decodeLease
  actionPending := .of_recordStep Action.recordStep_decodePendingStep _ _
  actionDecision := Action.transparent_decodeDecision
  binding := Control.Binding.transparent_open
  request := Control.transparent_openRequest
  receipt := Control.Receipt.transparent_open
  transfer := Control.transparent_openTransfer
  push := Replica.Push.transparent_open
  ack := Replica.Ack.transparent_open
  record := (Transparent.of_canonicalStep Directory.Record.canonicalStep_decodeStep).limited _ _
  -- the documents that are encoded again and compared carry nothing besides what they say
  binding_canonical := by
    intro sig body key b h
    obtain ⟨-, hpeek, -⟩ := Control.Binding.open_eq_ok_iff.mp h
    obtain ⟨sig', body', written, hsplit, hcarries, -, hwritten⟩ := Control.Binding.peek_eq_ok_iff.mp hpeek
    obtain ⟨-, rfl⟩ := eq_of_signature_append (Control.splitSigned_eq_ok_iff.mp hsplit).1
    exact ⟨written, hwritten, hcarries⟩
  request_canonical := by
    intro bytes signatures body opened hsplit h
    obtain ⟨signatures', body', hsplit', -, hread, -⟩ := Control.openRequest_eq_ok_iff.mp h
    obtain ⟨-, rfl⟩ := Prod.mk.inj (Except.ok.inj (hsplit.symm.trans hsplit'))
    obtain ⟨written, hcarries, -, hwritten⟩ := Control.ControlRequest.decodeBody_eq_ok_iff.mp hread
    exact ⟨written, hwritten, hcarries⟩
  receipt_canonical := by
    intro sig body key r h
    obtain ⟨⟨sig', body'⟩, hsplit, h⟩ := Except.bind_eq_ok_iff.mp h
    obtain ⟨-, rfl⟩ := eq_of_signature_append (Control.splitSigned_eq_ok_iff.mp hsplit).1
    obtain ⟨-, hread⟩ := Except.check_bind_eq_ok_iff.mp h
    obtain ⟨written, hcarries, hwritten⟩ := Control.Receipt.decodeBody_eq_ok_iff.mp hread
    exact ⟨written, hwritten, hcarries⟩
  transfer_canonical := by
    intro bytes signatures body transfer signers hsplit h
    obtain ⟨signatures', body', hsplit', -, hread, -⟩ := Control.openTransfer_eq_ok_iff.mp h
    obtain ⟨-, rfl⟩ := Prod.mk.inj (Except.ok.inj (hsplit.symm.trans hsplit'))
    obtain ⟨written, hcarries, hwritten⟩ := Control.Transfer.decodeBody_eq_ok_iff.mp hread
    exact ⟨written, hwritten, hcarries⟩
  record_canonical := by
    intro bytes r h
    obtain ⟨-, written, hcarries, hwritten⟩ := Directory.Record.decode_eq_ok_iff.mp h
    exact ⟨written, hwritten, hcarries⟩

/-! ### A lease that is signed again -/

namespace Action

/-- The fields of the sample lease. -/
def sampleLeaseContents : Contents :=
  [(1, List.replicate 16 7), (2, List.replicate 32 9), (3, toLeBytes (2 : UInt16)),
    (4, encodeContents [(3, utf8 "src/old/a.rs")]), (5, List.replicate 16 5), (6, toLeBytes (100 : Int64)),
    (7, toLeBytes (130 : Int64)), (8, toLeBytes (1 : UInt64))]

/-- A field that no lease has. -/
def laterField : Contents := [(0x8abc, [0xde, 0xad, 0xbe, 0xef])]

/-- The signature of the sample server under the lease with that field. -/
def laterSignature : Signature :=
  ⟨[0x49, 0x72, 0xfd, 0x6e, 0x00, 0x3e, 0x41, 0x58, 0x84, 0xfa, 0x97, 0x43, 0x9c, 0x9e, 0x0b, 0x7d,
    0x09, 0x8a, 0x85, 0xc0, 0xef, 0x2d, 0xf2, 0x38, 0x91, 0x2c, 0xa0, 0x3a, 0x31, 0x6c, 0x2f, 0x21,
    0x71, 0xa0, 0x25, 0xb0, 0x8c, 0x47, 0xc8, 0x58, 0xd6, 0xd4, 0xfe, 0xe5, 0x44, 0xad, 0xdd, 0xae,
    0x3c, 0x9c, 0xfd, 0xf0, 0x91, 0x23, 0xc9, 0xb1, 0x19, 0xbe, 0x6e, 0xbc, 0x65, 0xe6, 0xaa, 0x0b],
    rfl⟩

/-- Ed25519 as far as the two signatures go. -/
def laterEd25519 : Ed25519 :=
  Control.recordedEd25519
    [(sampleServer, (leaseTranscript (encodeContents sampleLeaseContents)).asBytes, sampleLease.signature),
      (sampleServer, (leaseTranscript (encodeContents (sampleLeaseContents ++ laterField))).asBytes,
        laterSignature)]

theorem extends_laterField :
    Extends [1, 2, 3, 4, 5, 6, 7, 8] laterField (encodeContents sampleLeaseContents)
      (encodeContents (sampleLeaseContents ++ laterField)) := by
  refine ⟨_, _, Encodes.of_forall (by decide) (by decide), Encodes.of_forall (by decide) (by decide),
    ⟨.refl _, by decide⟩, by decide⟩

theorem decodeLease_sampleLease :
    decodeLease laterEd25519 (sampleLease.signature.toList ++ encodeContents sampleLeaseContents)
      sampleServer = .ok sampleLease := by
  refine verified_eq_ok_iff.mpr ⟨_, _, rfl, Control.verify_recordedEd25519 (by simp), ?_⟩
  decide +kernel

/-- **The value is not the same.** The lease with the later field is accepted, and carries the signature
that it was accepted with. -/
theorem resigned_lease_differs :
    Extends [1, 2, 3, 4, 5, 6, 7, 8] laterField (encodeContents sampleLeaseContents)
        (encodeContents (sampleLeaseContents ++ laterField)) ∧
      (∀ p ∈ laterField, critTagMax < p.1) ∧
      decodeLease laterEd25519 (sampleLease.signature.toList ++ encodeContents sampleLeaseContents)
        sampleServer = .ok sampleLease ∧
      decodeLease laterEd25519
        (laterSignature.toList ++ encodeContents (sampleLeaseContents ++ laterField)) sampleServer =
          .ok { sampleLease with signature := laterSignature } ∧
      { sampleLease with signature := laterSignature } ≠ sampleLease := by
  have hoptional : ∀ p ∈ laterField, critTagMax < p.1 := by decide
  have hvalid : verify laterEd25519 sampleServer
      (leaseTranscript (encodeContents (sampleLeaseContents ++ laterField))) laterSignature = .ok () :=
    Control.verify_recordedEd25519 (by simp)
  refine ⟨extends_laterField, hoptional, decodeLease_sampleLease, ?_, by decide⟩
  exact transparent_decodeLease.skips extends_laterField hoptional trivial hvalid decodeLease_sampleLease

end Action

end OpenCrate.Protocol
