import OpenCrate.Protocol.ActionRoundTrip
import OpenCrate.Protocol.Agent

/-!
# What the writers of agents and actions write, their readers read

Beside the requests and the queue entries, the documents of `agent` and `action` are signed: the
signature stands before the body, covers its bytes and is verified before the body is parsed. For
such a document the law of writers and readers asks for a signature that is valid under the key of
the reader (`SignedCodec.Law`), and follows from the law for the bodies (`SignedCodec.Law.of_body`).
-/

namespace OpenCrate.Protocol

open OpenCrate.Format OpenCrate.Crypto
open Except (refuseIf okOr)

/-- How a signed document is written and read. -/
structure SignedCodec (α : Type) where
  /-- What the signature covers. -/
  transcript : List UInt8 → Transcript
  signature : α → Signature
  /-- The key that the body names, if it names one. -/
  authorKey : α → Option Digest
  body : α → Except FormatError (List UInt8)
  decodeBody : Signature → List UInt8 → Except FormatError α
  encode : α → Except FormatError (List UInt8)
  decode : List UInt8 → Digest → Except FormatError α

namespace SignedCodec

variable {α : Type} (ed : Ed25519) (codec : SignedCodec α)

/-- **The law of a signed writer and its reader.** A written document with a valid signature is read
back, up to a normal form. What is read can be written again, and the written body is read back as it
is; so is the document, if the signature is valid for what was written. -/
structure Law (normal : α → α) : Prop where
  read_back : ∀ {a bytes key}, codec.encode a = .ok bytes → (∀ k ∈ codec.authorKey a, k = key) →
    verify ed key (codec.transcript (bytes.drop signatureLen)) (codec.signature a) = .ok () →
    codec.decode bytes key = .ok (normal a)
  rewrite : ∀ {a bytes key}, codec.decode bytes key = .ok a →
    ∃ body, codec.body a = .ok body ∧ codec.decodeBody (codec.signature a) body = .ok a ∧
      codec.encode a = .ok ((codec.signature a).toList ++ body) ∧
      (verify ed key (codec.transcript body) (codec.signature a) = .ok () →
        codec.decode ((codec.signature a).toList ++ body) key = .ok a)

variable {ed codec}

/-- The law from that of the body: a written body is read back, and what is read is normal and can
be written. -/
theorem Law.of_body {normal : α → α}
    (hencode : ∀ a, codec.encode a = codec.body a >>= fun body ↦
      .ok ((codec.signature a).toList ++ body))
    (hdecode : ∀ {a bytes key}, codec.decode bytes key = .ok a ↔
      ∃ signature body, bytes = signature.toList ++ body ∧
        verify ed key (codec.transcript body) signature = .ok () ∧
        codec.decodeBody signature body = .ok a ∧ ∀ k ∈ codec.authorKey a, k = key)
    (hkey : ∀ a, codec.authorKey (normal a) = codec.authorKey a)
    (hback : ∀ {a body}, codec.body a = .ok body →
      codec.decodeBody (codec.signature a) body = .ok (normal a))
    (hread : ∀ {signature body a}, codec.decodeBody signature body = .ok a →
      codec.signature a = signature ∧ normal a = a ∧ ∃ body', codec.body a = .ok body') :
    codec.Law ed normal where
  read_back := by
    intro a bytes key hbytes hauthor hvalid
    rw [hencode] at hbytes
    obtain ⟨body, hwritten, hbytes⟩ := Except.bind_eq_ok_iff.mp hbytes
    obtain rfl := Except.ok.inj hbytes
    have hlen : (codec.signature a).toList.length = signatureLen := (codec.signature a).toList_length
    rw [List.drop_left' hlen] at hvalid
    refine hdecode.mpr ⟨_, body, rfl, hvalid, hback hwritten, ?_⟩
    rwa [hkey]
  rewrite := by
    intro a bytes key h
    obtain ⟨signature, body, -, -, hbody, hauthor⟩ := hdecode.mp h
    obtain ⟨rfl, hnormal, body', hwritten⟩ := hread hbody
    have hback := hback hwritten
    rw [hnormal] at hback
    refine ⟨body', hwritten, hback, ?_, fun hvalid ↦ hdecode.mpr ⟨_, _, rfl, hvalid, hback, hauthor⟩⟩
    rw [hencode, hwritten, Except.ok_bind]

end SignedCodec

section

variable {ed : Ed25519} {α : Type} {transcript : List UInt8 → Transcript}
    {k : Signature → List UInt8 → Except FormatError α}

/-- A document is opened: the signature is split off and verified before anything else. -/
theorem verified_eq_ok_iff {bytes : List UInt8} {key : Digest} {a : α} :
    (do
      let (signature, body) ← splitSignature bytes
      (verify ed key (transcript body) signature).mapError fun _ ↦ FormatError.badHeaderSignature
      k signature body) = .ok a ↔
    ∃ signature body, bytes = signature.toList ++ body ∧
      verify ed key (transcript body) signature = .ok () ∧ k signature body = .ok a := by
  rw [Except.bind_eq_ok_iff]
  constructor
  · rintro ⟨⟨signature, body⟩, hsplit, h⟩
    obtain ⟨hvalid, h⟩ := Except.check_bind_eq_ok_iff.mp h
    exact ⟨signature, body, splitSignature_eq_ok_iff.mp hsplit, Except.mapError_eq_ok_iff.mp hvalid, h⟩
  · rintro ⟨signature, body, hbytes, hvalid, h⟩
    refine ⟨(signature, body), splitSignature_eq_ok_iff.mpr hbytes, ?_⟩
    exact Except.check_bind_eq_ok_iff.mpr ⟨Except.mapError_eq_ok_iff.mpr hvalid, h⟩

/-- The same where the body names no key. -/
theorem verified_unnamed_eq_ok_iff {bytes : List UInt8} {key : Digest} {a : α} :
    (do
      let (signature, body) ← splitSignature bytes
      (verify ed key (transcript body) signature).mapError fun _ ↦ FormatError.badHeaderSignature
      k signature body) = .ok a ↔
    ∃ signature body, bytes = signature.toList ++ body ∧
      verify ed key (transcript body) signature = .ok () ∧ k signature body = .ok a ∧
        ∀ key' ∈ (none : Option Digest), key' = key := by
  simp only [Option.not_mem_none, false_imp_iff, implies_true, and_true]
  exact verified_eq_ok_iff

/-- The same where the body names the key. -/
theorem verified_named_eq_ok_iff {bytes : List UInt8} {key : Digest} {a : α} {named : α → Digest}
    {e : FormatError} :
    (do
      let (signature, body) ← splitSignature bytes
      (verify ed key (transcript body) signature).mapError fun _ ↦ FormatError.badHeaderSignature
      let document ← k signature body
      refuseIf (named document ≠ key) e
      .ok document) = .ok a ↔
    ∃ signature body, bytes = signature.toList ++ body ∧
      verify ed key (transcript body) signature = .ok () ∧ k signature body = .ok a ∧
        ∀ key' ∈ some (named a), key' = key := by
  refine (verified_eq_ok_iff (k := fun signature body ↦ do
    let document ← k signature body
    refuseIf (named document ≠ key) e
    .ok document)).trans ?_
  refine exists_congr fun signature ↦ exists_congr fun body ↦ and_congr_right fun _ ↦
    and_congr_right fun _ ↦ ?_
  simp only [Except.bind_eq_ok_iff, Except.refuseIf_eq_ok_iff, not_not, Option.mem_some_iff,
    forall_eq']
  constructor
  · rintro ⟨document, hbody, -, hkey, hdocument⟩
    obtain rfl := Except.ok.inj hdocument
    exact ⟨hbody, hkey⟩
  · rintro ⟨hbody, hkey⟩
    exact ⟨a, hbody, (), hkey, rfl⟩

end

namespace Action

/-! ### Action grants -/

/-- The tags and values of an action grant, given the bytes of its rules. -/
def grantContents (grant : ActionGrant) (rules : List UInt8) : Contents :=
  [(ActionGrantTag.grantId, grant.grantId.toList), (ActionGrantTag.rules, rules),
    (ActionGrantTag.issuedAt, toLeBytes grant.issuedAt),
    (ActionGrantTag.expiresAt, toLeBytes grant.expiresAt),
    (ActionGrantTag.authorKey, grant.authorKey.toList)]

/-- The body of a grant is its records around the rules, if its shape passes the check. -/
theorem grantBody_eq_ok_iff {grant : ActionGrant} {bytes : List UInt8} :
    grantBody grant = .ok bytes ↔ checkGrantShape grant = .ok () ∧
      ∃ rules, encodeRules grant.rules = .ok rules ∧ Encodes bytes (grantContents grant rules) := by
  simp only [grantBody, Except.check_bind_eq_ok_iff, TlvWriter.new_put_bind,
    TlvWriter.putMany_put_bind, TlvWriter.putMany_bind_eq_ok_iff, TlvWriter.putMany_finish_eq_ok_iff,
    grantContents, List.cons_append, List.nil_append]

theorem recordStep_decodeGrantStep : RecordStep [1, 2, 3, 4, 5] decodeGrantStep where
  span_free _ _ _ _ _ := rfl
  skips acc tag value span h := by
    unfold decodeGrantStep
    split <;> first | rfl | simp_all

/-- An action grant of the right shape can be written. -/
theorem exists_grantBody {grant : ActionGrant} (h : checkGrantShape grant = .ok ()) :
    ∃ bytes, grantBody grant = .ok bytes := by
  obtain ⟨hlen, hshape⟩ := Except.check_bind_eq_ok_iff.mp h
  obtain ⟨hrules, -⟩ := Except.check_bind_eq_ok_iff.mp hshape
  obtain ⟨rules, hencoded, hbound⟩ := exists_encodeRules
    (not_lt.mp (Except.refuseIf_eq_ok_iff.mp hlen)) (Except.forM_eq_ok_iff.mp hrules)
  have hshort : encodedLength (grantContents grant rules) < 2 ^ 32 := by
    have hbound := hbound.trans_lt (show _ < 2 ^ 31 by decide)
    simp only [grantContents, encodedLength_cons, encodedLength_nil, fieldPrefixLen,
      length_toLeBytes, LeInt.width_int64, List.Vector.toList_length]
    omega
  have htags : ((grantContents grant rules).map Prod.fst).Pairwise (· < ·) := by
    simp [grantContents, ActionGrantTag.grantId, ActionGrantTag.rules, ActionGrantTag.issuedAt,
      ActionGrantTag.expiresAt, ActionGrantTag.authorKey]
  obtain ⟨bytes, henc, -⟩ := Encodes.exists_of_short htags hshort
  exact ⟨bytes, grantBody_eq_ok_iff.mpr ⟨h, rules, hencoded, henc⟩⟩

variable (ed : Ed25519)

/-- The codec of action grants. -/
def grantCodec : SignedCodec ActionGrant where
  transcript := grantTranscript
  signature := ActionGrant.signature
  authorKey grant := some grant.authorKey
  body := grantBody
  decodeBody := decodeGrantBody
  encode := encodeGrant
  decode := decodeGrant ed

/-- What is read has passed the check, and has the signature that it came with. -/
theorem shape_of_decodeGrantBody {signature : Signature} {body : List UInt8} {grant : ActionGrant}
    (h : decodeGrantBody signature body = .ok grant) :
    checkGrantShape grant = .ok () ∧ grant.signature = signature := by
  simp only [decodeGrantBody, Except.bind_eq_ok_iff] at h
  obtain ⟨_, -, _, -, _, -, _, -, _, -, _, -, ⟨⟩, hshape, hgrant⟩ := h
  obtain rfl := Except.ok.inj hgrant
  exact ⟨hshape, rfl⟩

/-- A written grant body is read back. -/
theorem decodeGrantBody_grantBody {grant : ActionGrant} {bytes : List UInt8}
    (h : grantBody grant = .ok bytes) : decodeGrantBody grant.signature bytes = .ok grant := by
  obtain ⟨hshape, rules, hrules, henc⟩ := grantBody_eq_ok_iff.mp h
  have hread := decodeRules_encodeRules hrules
  rw [decodeGrantBody, recordStep_decodeGrantStep.foldFields_eq henc]
  simp [grantContents, readField, decodeGrantStep, ActionGrantTag.grantId, ActionGrantTag.rules,
    ActionGrantTag.issuedAt, ActionGrantTag.expiresAt, ActionGrantTag.authorKey, hread, hshape]

/-- **Action grants** obey the law of signed writers and readers. -/
theorem law_grantCodec : (grantCodec ed).Law ed id := by
  refine .of_body (fun _ ↦ rfl) verified_named_eq_ok_iff (fun _ ↦ rfl) decodeGrantBody_grantBody ?_
  intro signature bytes grant h
  obtain ⟨hshape, hsignature⟩ := shape_of_decodeGrantBody h
  exact ⟨hsignature, rfl, exists_grantBody hshape⟩

/-! ### Leases -/

/-- The tags and values of a lease, given the bytes of its arguments. -/
def leaseContents (lease : ActionLease) (args : List UInt8) : Contents :=
  [(LeaseTag.grantId, lease.grantId.toList), (LeaseTag.doorFpr, lease.doorFpr.toList),
    (LeaseTag.kind, toLeBytes lease.kind.asU16), (LeaseTag.args, args),
    (LeaseTag.nonce, lease.nonce.toList), (LeaseTag.issuedAt, toLeBytes lease.issuedAt),
    (LeaseTag.expiresAt, toLeBytes lease.expiresAt), (LeaseTag.seq, toLeBytes lease.seq)]

/-- The body of a lease is its records around the arguments, if its shape passes the check. -/
theorem leaseBody_eq_ok_iff {lease : ActionLease} {bytes : List UInt8} :
    leaseBody lease = .ok bytes ↔ checkLeaseShape lease = .ok () ∧
      ∃ args, encodeArgs lease.args = .ok args ∧ Encodes bytes (leaseContents lease args) := by
  simp only [leaseBody, Except.check_bind_eq_ok_iff, TlvWriter.new_put_bind,
    TlvWriter.putMany_put_bind, TlvWriter.putMany_bind_eq_ok_iff, TlvWriter.putMany_finish_eq_ok_iff,
    leaseContents, List.cons_append, List.nil_append]

theorem recordStep_decodeLeaseStep : RecordStep [1, 2, 3, 4, 5, 6, 7, 8] decodeLeaseStep where
  span_free _ _ _ _ _ := rfl
  skips acc tag value span h := by
    unfold decodeLeaseStep
    split <;> first | rfl | simp_all

/-- The parts of the shape of a lease that the codec uses. -/
theorem kind_and_args_of_checkLeaseShape {lease : ActionLease} (h : checkLeaseShape lease = .ok ()) :
    lease.kind = lease.args.kind ∧ checkArgsShape lease.args = .ok () := by
  obtain ⟨hkind, h⟩ := Except.check_bind_eq_ok_iff.mp h
  obtain ⟨-, h⟩ := Except.check_bind_eq_ok_iff.mp h
  obtain ⟨-, hargs⟩ := Except.check_bind_eq_ok_iff.mp h
  exact ⟨not_not.mp (Except.refuseIf_eq_ok_iff.mp hkind), hargs⟩

/-- A lease of the right shape can be written. -/
theorem exists_leaseBody {lease : ActionLease} (h : checkLeaseShape lease = .ok ()) :
    ∃ bytes, leaseBody lease = .ok bytes := by
  obtain ⟨args, hencoded, hlen⟩ := exists_encodeArgs (kind_and_args_of_checkLeaseShape h).2
  have hshort : encodedLength (leaseContents lease args) < 2 ^ 32 := by
    simp only [leaseContents, encodedLength_cons, encodedLength_nil, fieldPrefixLen, length_toLeBytes,
      LeInt.width_uint16, LeInt.width_int64, LeInt.width_uint64, List.Vector.toList_length]
    omega
  have htags : ((leaseContents lease args).map Prod.fst).Pairwise (· < ·) := by
    simp [leaseContents, LeaseTag.grantId, LeaseTag.doorFpr, LeaseTag.kind, LeaseTag.args,
      LeaseTag.nonce, LeaseTag.issuedAt, LeaseTag.expiresAt, LeaseTag.seq]
  obtain ⟨bytes, henc, -⟩ := Encodes.exists_of_short htags hshort
  exact ⟨bytes, leaseBody_eq_ok_iff.mpr ⟨h, args, hencoded, henc⟩⟩

/-- The codec of leases. A lease names no key. -/
def leaseCodec : SignedCodec ActionLease where
  transcript := leaseTranscript
  signature := ActionLease.signature
  authorKey _ := none
  body := leaseBody
  decodeBody := decodeLeaseBody
  encode := encodeLease
  decode := decodeLease ed

/-- What is read has passed the check, and has the signature that it came with. -/
theorem shape_of_decodeLeaseBody {signature : Signature} {body : List UInt8} {lease : ActionLease}
    (h : decodeLeaseBody signature body = .ok lease) :
    checkLeaseShape lease = .ok () ∧ lease.signature = signature := by
  simp only [decodeLeaseBody, Except.bind_eq_ok_iff] at h
  obtain ⟨_, -, _, -, _, -, _, -, _, -, _, -, _, -, _, -, _, -, _, -, ⟨⟩, hshape, hlease⟩ := h
  obtain rfl := Except.ok.inj hlease
  exact ⟨hshape, rfl⟩

/-- **Leases** obey the law of signed writers and readers. -/
theorem law_leaseCodec : (leaseCodec ed).Law ed id := by
  refine .of_body (fun _ ↦ rfl) verified_unnamed_eq_ok_iff (fun _ ↦ rfl) ?_ ?_
  · intro lease bytes h
    obtain ⟨hshape, args, hargs, henc⟩ := leaseBody_eq_ok_iff.mp h
    have hread : decodeArgs args lease.kind = .ok lease.args :=
      (kind_and_args_of_checkLeaseShape hshape).1 ▸ decodeArgs_encodeArgs hargs
    show decodeLeaseBody lease.signature _ = _
    rw [decodeLeaseBody, recordStep_decodeLeaseStep.foldFields_eq henc]
    simp [leaseContents, readField, decodeLeaseStep, LeaseTag.grantId, LeaseTag.doorFpr,
      LeaseTag.kind, LeaseTag.args, LeaseTag.nonce, LeaseTag.issuedAt, LeaseTag.expiresAt,
      LeaseTag.seq, hread, hshape]
  · intro signature bytes lease h
    obtain ⟨hshape, hsignature⟩ := shape_of_decodeLeaseBody h
    exact ⟨hsignature, rfl, exists_leaseBody hshape⟩

/-! ### Decisions -/

/-- The tags and values of a decision. -/
def decisionContents (decision : ActionDecision) : Contents :=
  [(DecisionTag.grantId, decision.grantId.toList), (DecisionTag.doorFpr, decision.doorFpr.toList),
    (DecisionTag.seq, toLeBytes decision.seq), (DecisionTag.approve, [decision.approve.toUInt8]),
    (DecisionTag.note, utf8 decision.note), (DecisionTag.authorKey, decision.authorKey.toList)]

/-- The body of a decision is its records, if its note passes the check. -/
theorem decisionBody_eq_ok_iff {decision : ActionDecision} {bytes : List UInt8} :
    decisionBody decision = .ok bytes ↔ checkNote decision.note DecisionTag.note = .ok () ∧
      Encodes bytes (decisionContents decision) := by
  simp only [decisionBody, Except.check_bind_eq_ok_iff, TlvWriter.new_put_bind,
    TlvWriter.putMany_put_bind, TlvWriter.putMany_finish_eq_ok_iff, decisionContents,
    List.cons_append, List.nil_append]

theorem recordStep_decodeDecisionStep : RecordStep [1, 2, 3, 4, 5, 6] decodeDecisionStep where
  span_free _ _ _ _ _ := rfl
  skips acc tag value span h := by
    unfold decodeDecisionStep
    split <;> first | rfl | simp_all

/-- A decision with a proper note can be written. -/
theorem exists_decisionBody {decision : ActionDecision}
    (h : checkNote decision.note DecisionTag.note = .ok ()) :
    ∃ bytes, decisionBody decision = .ok bytes := by
  have hnote := length_utf8_le_of_checkNote h
  have hshort : encodedLength (decisionContents decision) < 2 ^ 32 := by
    rw [maxNote] at hnote
    simp only [decisionContents, encodedLength_cons, encodedLength_nil, fieldPrefixLen,
      length_toLeBytes, LeInt.width_uint64, List.Vector.toList_length, List.length_singleton]
    omega
  have htags : ((decisionContents decision).map Prod.fst).Pairwise (· < ·) := by
    simp [decisionContents, DecisionTag.grantId, DecisionTag.doorFpr, DecisionTag.seq,
      DecisionTag.approve, DecisionTag.note, DecisionTag.authorKey]
  obtain ⟨bytes, henc, -⟩ := Encodes.exists_of_short htags hshort
  exact ⟨bytes, decisionBody_eq_ok_iff.mpr ⟨h, henc⟩⟩

/-- The codec of decisions. -/
def decisionCodec : SignedCodec ActionDecision where
  transcript := decisionTranscript
  signature := ActionDecision.signature
  authorKey decision := some decision.authorKey
  body := decisionBody
  decodeBody := decodeDecisionBody
  encode := encodeDecision
  decode := decodeDecision ed

/-- The note of a decision that was read was checked. -/
theorem checkNote_of_decodeDecisionStep {acc acc' : DecisionReading} {field : Field}
    (hacc : ∀ note ∈ acc.note, checkNote note DecisionTag.note = .ok ())
    (h : decodeDecisionStep acc field = .ok acc') :
    ∀ note ∈ acc'.note, checkNote note DecisionTag.note = .ok () := by
  unfold decodeDecisionStep at h
  split at h
  · obtain ⟨_, -, rfl⟩ := Except.map_eq_ok_iff.mp h
    exact hacc
  · obtain ⟨_, -, rfl⟩ := Except.map_eq_ok_iff.mp h
    exact hacc
  · obtain ⟨_, -, rfl⟩ := Except.map_eq_ok_iff.mp h
    exact hacc
  · split at h
    · obtain rfl := Except.ok.inj h
      exact hacc
    · obtain rfl := Except.ok.inj h
      exact hacc
    · cases h
  · obtain ⟨note, hnote, rfl⟩ := Except.map_eq_ok_iff.mp h
    intro note' hnote'
    obtain rfl := Option.some.inj hnote'
    exact checkNote_of_noteField hnote
  · obtain ⟨_, -, rfl⟩ := Except.map_eq_ok_iff.mp h
    exact hacc
  · exact eq_of_skipUnknown h ▸ hacc

/-- What is read has passed the check, and has the signature that it came with. -/
theorem checkNote_of_decodeDecisionBody {signature : Signature} {body : List UInt8}
    {decision : ActionDecision} (h : decodeDecisionBody signature body = .ok decision) :
    checkNote decision.note DecisionTag.note = .ok () ∧ decision.signature = signature := by
  simp only [decodeDecisionBody, Except.bind_eq_ok_iff] at h
  obtain ⟨acc, hacc, _, -, _, -, _, -, _, -, note, hnote, _, -, hdecision⟩ := h
  obtain rfl := Except.ok.inj hdecision
  obtain ⟨l, -, hfold⟩ := exists_encodes_of_foldFields hacc
  have hinv := Except.foldlM_invariant
    (P := fun acc : DecisionReading ↦ ∀ note ∈ acc.note, checkNote note DecisionTag.note = .ok ()) hfold
  exact ⟨hinv nofun (fun _ _ _ _ hc hstep ↦ checkNote_of_decodeDecisionStep hc hstep) note
    (Except.okOr_eq_ok_iff.mp hnote), rfl⟩

/-- **Decisions** obey the law of signed writers and readers. -/
theorem law_decisionCodec : (decisionCodec ed).Law ed id := by
  refine .of_body (fun _ ↦ rfl) verified_named_eq_ok_iff (fun _ ↦ rfl) ?_ ?_
  · intro decision bytes h
    obtain ⟨hnote, henc⟩ := decisionBody_eq_ok_iff.mp h
    have hread : ∀ tag span, noteField ⟨tag, utf8 decision.note, span⟩ 5 = .ok decision.note :=
      fun _ _ ↦ noteField_utf8 hnote
    show decodeDecisionBody decision.signature _ = _
    rw [decodeDecisionBody, recordStep_decodeDecisionStep.foldFields_eq henc]
    obtain ⟨seq, grantId, doorFpr, approve, note, authorKey, signature⟩ := decision
    cases approve <;>
      simp [decisionContents, readField, decodeDecisionStep, DecisionTag.grantId, DecisionTag.doorFpr,
        DecisionTag.seq, DecisionTag.approve, DecisionTag.note, DecisionTag.authorKey, Bool.toUInt8,
        hread]
  · intro signature bytes decision h
    obtain ⟨hnote, hsignature⟩ := checkNote_of_decodeDecisionBody h
    exact ⟨hsignature, rfl, exists_decisionBody hnote⟩

end Action

end OpenCrate.Protocol
