import OpenCrate.Crypto.Kdf
import OpenCrate.Protocol.Access
import OpenCrate.Protocol.ActionDocuments
import OpenCrate.Protocol.Agent
import OpenCrate.Protocol.Control
import OpenCrate.Protocol.Lease
import OpenCrate.Protocol.Order
import OpenCrate.Protocol.Replica
import OpenCrate.Protocol.Revocation
import OpenCrate.Protocol.Witness

/-!
# What is signed for one purpose says nothing for another

The document modules of `oc-protocol` sign transcripts of different framing: one length-prefixed body, the
fixed fields of a head, the fields of a cosignature, two frames of a handshake. A `Statement` is anything
that one of them makes a transcript of, and the bytes of a transcript determine the statement: the label
is read off the front, since the registry is prefix-free, and behind it the framing is known.
-/

namespace OpenCrate.Protocol

open OpenCrate.Format OpenCrate.Crypto

/-! ### Statements -/

/-- The documents that are signed as one body. -/
inductive SignedKind where
  | lease
  | revocation
  | order
  | accessDecision
  | agentGrant
  | delegation
  | actionGrant
  | actionLease
  | actionDecision
  | binding
  | controlRequest
  | receipt
  | transfer
  | replicaPush
  | replicaAck
  deriving DecidableEq

namespace SignedKind

/-- The transcript of a body, built by the module of the document. -/
def transcript : SignedKind → List UInt8 → Transcript
  | lease => Lease.signingTranscript
  | revocation => Revocation.signingTranscript
  | order => Order.signingTranscript
  | accessDecision => Access.decisionTranscript
  | agentGrant => Agent.grantTranscript
  | delegation => Agent.delegationTranscript
  | actionGrant => Action.grantTranscript
  | actionLease => Action.leaseTranscript
  | actionDecision => Action.decisionTranscript
  | binding => Control.transcript .authorityBinding
  | controlRequest => Control.transcript .controlRequest
  | receipt => Control.transcript .operationReceipt
  | transfer => Control.transcript .authorityTransfer
  | replicaPush => Replica.transcript .replicaPush
  | replicaAck => Replica.transcript .replicaAck

/-- The label of the document. -/
def label : SignedKind → Label
  | lease => .lease
  | revocation => .revocation
  | order => .authorOrder
  | accessDecision => .grant
  | agentGrant => .agentGrant
  | delegation => .delegation
  | actionGrant => .actionGrant
  | actionLease => .actionLease
  | actionDecision => .actionDecision
  | binding => .authorityBinding
  | controlRequest => .controlRequest
  | receipt => .operationReceipt
  | transfer => .authorityTransfer
  | replicaPush => .replicaPush
  | replicaAck => .replicaAck

/-- Every document is one field under its label. -/
theorem transcript_eq (kind : SignedKind) (body : List UInt8) :
    kind.transcript body = (Transcript.new kind.label).field body := by
  cases kind <;> rfl

/-- The labels of the documents are different. -/
theorem label_injective : Function.Injective label := by
  intro a b h
  cases a <;> cases b <;> first | rfl | cases h

end SignedKind

/-- Whatever a transcript is made of. -/
inductive Statement where
  | document (kind : SignedKind) (body : List UInt8)
  | head (log : Log) (size : UInt64) (root : Digest)
  | cosignature (log : Log) (serverKey : Digest) (size : UInt64) (root : Digest) (at_ : Int64)
  | handshake (hello challenge : List UInt8)
  deriving DecidableEq

namespace Statement

/-- The transcript of a statement. -/
def transcript : Statement → Transcript
  | document kind body => kind.transcript body
  | head log size root => headTranscript log size root
  | cosignature log serverKey size root at_ => cosignTranscript log serverKey size root at_
  | handshake hello challenge => Kdf.handshakeFrames hello challenge

/-- The label of a statement. -/
def label : Statement → Label
  | document kind _ => kind.label
  | head log _ _ => log.headLabel
  | cosignature .. => .witnessCosign
  | handshake .. => .echoTranscript

/-- What follows the label and its separator. -/
def fields : Statement → List UInt8
  | document _ body => frame body
  | head _ size root => toBeBytes size ++ root.toList
  | cosignature log serverKey size root at_ =>
    [log.toU8] ++ (serverKey.toList ++ (toBeBytes size ++ (root.toList ++ toBeBytes at_)))
  | handshake hello challenge => frame hello ++ frame challenge

/-- What is length-prefixed is shorter than its length can say. -/
def Short : Statement → Prop
  | document _ body => body.length < 2 ^ 32
  | head .. => True
  | cosignature .. => True
  | handshake hello challenge => hello.length < 2 ^ 32 ∧ challenge.length < 2 ^ 32

end Statement

/-! ### Reading a transcript -/

/-- A field is a frame. -/
theorem field_buf (t : Transcript) {value : List UInt8} (h : value.length < 2 ^ 32) :
    (t.field value).buf = t.buf ++ frame value := by
  have hmin : min value.length (2 ^ 32 - 1) = value.length := by omega
  rw [Transcript.field, hmin, frame, List.append_assoc]

namespace Statement

variable {s t : Statement}

/-- A transcript is its label, the separator and the framed fields. -/
theorem asBytes_transcript (h : s.Short) :
    s.transcript.asBytes = s.label.asBytes ++ (0x00 :: s.fields) := by
  cases s with
  | document kind body =>
    rw [transcript, SignedKind.transcript_eq, Transcript.asBytes, field_buf _ h, Transcript.new,
      List.append_assoc]
    rfl
  | head log size root =>
    simp only [transcript, headTranscript, Transcript.asBytes, Transcript.fixed, Transcript.u64be,
      Transcript.new, label, fields, List.append_assoc, List.cons_append, List.nil_append]
  | cosignature log serverKey size root at_ =>
    simp only [transcript, cosignTranscript, Transcript.asBytes, Transcript.fixed, Transcript.u64be,
      Transcript.u8, Transcript.new, label, fields, List.append_assoc, List.cons_append,
      List.nil_append]
  | handshake hello challenge =>
    rw [transcript, Kdf.handshakeFrames, Transcript.asBytes, field_buf _ h.2, field_buf _ h.1,
      Transcript.new, List.append_assoc, List.append_assoc]
    rfl

/-- A label belongs to statements of one kind, and to documents of one module. -/
theorem fields_injective_of_label_eq (hs : s.Short) (ht : t.Short) (hlabel : s.label = t.label)
    (hfields : s.fields = t.fields) : s = t := by
  -- different kinds of statements have different labels
  cases s with
  | document kind body =>
    cases t with
    | document kind' body' =>
      have hbody := frame_inj hs ht hfields
      rw [SignedKind.label_injective hlabel, hbody]
    | head log _ _ => cases kind <;> cases log <;> cases hlabel
    | cosignature _ _ _ _ _ => cases kind <;> cases hlabel
    | handshake _ _ => cases kind <;> cases hlabel
  | head log size root =>
    cases t with
    | document kind _ => cases log <;> cases kind <;> cases hlabel
    | head log' size' root' =>
      have hlog : log = log' := by
        cases log <;> cases log' <;> first | rfl | cases hlabel
      obtain ⟨hsize, hroot⟩ := prefixFree_toBeBytes _ _ _ _ hfields
      rw [hlog, hsize, List.Vector.eq _ _ hroot]
    | cosignature _ _ _ _ _ => cases log <;> cases hlabel
    | handshake _ _ => cases log <;> cases hlabel
  | cosignature log serverKey size root at_ =>
    cases t with
    | document kind _ => cases kind <;> cases hlabel
    | head log' _ _ => cases log' <;> cases hlabel
    | cosignature log' serverKey' size' root' at_' =>
      have hlog : log = log' := by
        cases log <;> cases log' <;> first | rfl | exact absurd (List.cons.inj hfields).1 (by decide)
      obtain ⟨hkey, hrest⟩ := prefixFree_vector 32 _ _ _ _ (List.cons.inj hfields).2
      obtain ⟨hsize, hrest⟩ := prefixFree_toBeBytes _ _ _ _ hrest
      obtain ⟨hroot, hat⟩ := prefixFree_vector 32 _ _ _ _ hrest
      rw [hlog, hkey, hsize, hroot, prefixFree_toBeBytes.injective hat]
    | handshake _ _ => cases hlabel
  | handshake hello challenge =>
    cases t with
    | document kind _ => cases kind <;> cases hlabel
    | head log _ _ => cases log <;> cases hlabel
    | cosignature _ _ _ _ _ => cases hlabel
    | handshake hello' challenge' =>
      obtain ⟨hhello, hrest⟩ := frame_append_inj hs.1 ht.1 hfields
      have hchallenge := frame_inj hs.2 ht.2 hrest
      rw [hhello, hchallenge]

/-- **A transcript determines its statement**: its module, its label, and its body or fields. -/
theorem eq_of_transcript_eq (s t : Statement) (hs : s.Short) (ht : t.Short)
    (h : s.transcript.asBytes = t.transcript.asBytes) : s = t := by
  rw [asBytes_transcript hs, asBytes_transcript ht] at h
  obtain ⟨hlabel, hrest⟩ := Label.prefixFree_asBytes _ _ _ _ h
  exact fields_injective_of_label_eq hs ht hlabel (List.cons.inj hrest).2

/-- The transcript of a head of the key directory, built twice. -/
theorem eq_of_transcript_eq_head :
    let head : Statement := .head .directory 3 (List.Vector.replicate 32 1)
    head.transcript = headTranscript .directory 3 (List.Vector.replicate 32 1) ∧ head = head :=
  ⟨rfl, eq_of_transcript_eq _ _ trivial trivial rfl⟩

end Statement

end OpenCrate.Protocol
