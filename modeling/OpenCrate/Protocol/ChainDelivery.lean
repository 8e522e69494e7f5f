import OpenCrate.Data.RecordStreams
import OpenCrate.Protocol.Attenuation
import OpenCrate.Protocol.EnvelopeRoundTrip

/-!
# Chains are delivered

What the verifier of chains accepts, the envelope carries: a grant and its links are no more documents than
a chain response has room for, because the depth of a grant bounds its links and the room is derived from the
bound on the depth. Joining documents and splitting a body are inverse to each other
(`strict_joinChain_splitChain`), so that the documents come back in order.

The action grant beside the documents is one field of TLV, whose length is a number of four bytes; that is
the only bound on it (`chains_are_delivered`).
-/

namespace OpenCrate.Protocol.Activation

open OpenCrate.Format OpenCrate.Crypto
open Except (refuseIf okOr Strict)
open Control (splitAtChecked splitAtChecked_eq_some_iff)

/-! ### Joining and splitting -/

/-- A document of a chain is neither empty nor longer than a document. -/
def checkDocument (document : List UInt8) : Except FormatError Unit :=
  refuseIf (document = [] ∨ maxDocument < document.length) (badLength document.length)

/-- One document behind those written. -/
def joinStep (body document : List UInt8) : Except FormatError (List UInt8) := do
  checkDocument document
  enframeStep (fun _ ↦ .offsetOverflow) body document

/-- Assemble grant and links into the body of a chain response. -/
def joinChain (documents : List (List UInt8)) : Except FormatError (List UInt8) := do
  refuseIf (documents = [] ∨ maxChainDocuments < documents.length) (badLength documents.length)
  documents.foldlM joinStep []

/-- The documents of a chain: some, no more than there is room for, and each of a length. -/
structure IsChain (documents : List (List UInt8)) : Prop where
  some_ : documents ≠ []
  room : documents.length ≤ maxChainDocuments
  sized : ∀ document ∈ documents, document ≠ [] ∧ document.length ≤ maxDocument

variable {documents : List (List UInt8)} {body : List UInt8}

/-- A document of a chain has a length, and a bounded one. -/
theorem checkDocument_eq_ok_iff {document : List UInt8} :
    checkDocument document = .ok () ↔ document ≠ [] ∧ document.length ≤ maxDocument := by
  rw [checkDocument, Except.refuseIf_eq_ok_iff, not_or, not_lt]

theorem length_lt_of_le_maxDocument {document : List UInt8} (h : document.length ≤ maxDocument) :
    document.length < 2 ^ 32 :=
  h.trans_lt (by decide)

/-- **What is joined.** -/
theorem joinChain_eq_ok_iff : joinChain documents = .ok body ↔ IsChain documents ∧ IsStream documents body := by
  rw [joinChain, Except.check_bind_eq_ok_iff, Except.refuseIf_eq_ok_iff, not_or, not_lt]
  show _ ∧ documents.foldlM (fun body document ↦ checkDocument document >>= fun _ ↦
    enframeStep (fun _ ↦ .offsetOverflow) body document) [] = .ok body ↔ _
  rw [Except.foldlM_check_eq_ok_iff, foldlM_enframeStep_eq_ok_iff, List.nil_append]
  simp only [checkDocument_eq_ok_iff]
  constructor
  · intro h
    obtain ⟨⟨hsome, hroom⟩, hsized, hfits, hbody⟩ := h
    exact ⟨⟨hsome, hroom, hsized⟩, hfits, hbody⟩
  · intro h
    exact ⟨⟨h.1.some_, h.1.room⟩, h.1.sized, h.2.fits, h.2.eq_frames⟩

/-- **One round** takes a document behind its length. -/
theorem splitChainFrom_succ_eq_ok_iff {room : ℕ} (hne : body ≠ []) {out all : List (List UInt8)} :
    splitChainFrom (room + 1) body out = .ok all ↔
      ∃ document after, (document ≠ [] ∧ document.length ≤ maxDocument) ∧ body = frame document ++ after ∧
        splitChainFrom room after (out ++ [document]) = .ok all := by
  obtain ⟨byte, rest, rfl⟩ := List.exists_cons_of_ne_nil hne
  rw [splitChainFrom]
  simp only [Except.bind_eq_ok_iff, Except.okOr_eq_ok_iff, Except.refuseIf_eq_ok_iff, Prod.exists,
    splitAtChecked_eq_some_iff, ofLeBytes?_eq_some_iff, not_or, not_lt]
  constructor
  · intro h
    obtain ⟨_, tail, ⟨-, hbytes⟩, len, rfl, -, ⟨hpos, hbound⟩, document, after, ⟨hlength, rfl⟩, hrest⟩ := h
    refine ⟨document, after, ⟨?_, hlength ▸ hbound⟩, ?_, hrest⟩
    · exact List.ne_nil_of_length_pos (by omega)
    · rw [frame, hlength, UInt32.ofNat_toNat, List.append_assoc]
      exact hbytes
  · intro h
    obtain ⟨document, after, ⟨hsome, hbound⟩, hbytes, hrest⟩ := h
    have hnat : (UInt32.ofNat document.length).toNat = document.length :=
      UInt32.toNat_ofNat_of_lt' (length_lt_of_le_maxDocument hbound)
    rw [frame, List.append_assoc] at hbytes
    refine ⟨_, _, ⟨length_toLeBytes _, hbytes⟩, _, rfl, (), ?_, document, after, ⟨hnat.symm, rfl⟩, hrest⟩
    rw [hnat]
    exact ⟨(List.length_pos_iff.mpr hsome).ne', hbound⟩

/-- At the end of a body some documents must have been taken. -/
theorem splitChainFrom_nil_eq_ok_iff {room : ℕ} {out all : List (List UInt8)} :
    splitChainFrom room [] out = .ok all ↔ ∃ more, all = out ++ more ∧ all ≠ [] ∧ more.length ≤ room ∧
      (∀ document ∈ more, document ≠ [] ∧ document.length ≤ maxDocument) ∧ IsStream more [] := by
  have hnil : splitChainFrom room [] out = refuseIf (out = []) (badLength 0) >>= fun _ ↦ .ok out := by
    cases room <;> rfl
  rw [hnil, Except.check_bind_eq_ok_iff, Except.refuseIf_eq_ok_iff, Except.ok.injEq]
  constructor
  · intro h
    obtain ⟨hsome, rfl⟩ := h
    exact ⟨[], (List.append_nil _).symm, hsome, Nat.zero_le _, nofun, isStream_nil_iff.mpr rfl⟩
  · intro h
    obtain ⟨more, rfl, hsome, -, -, hstream⟩ := h
    obtain rfl := frames_eq_nil_iff.mp hstream.eq_frames.symm
    rw [List.append_nil] at hsome ⊢
    exact ⟨hsome, rfl⟩

/-- **The whole run** behind some documents that were taken. -/
theorem splitChainFrom_eq_ok_iff {room : ℕ} {out all : List (List UInt8)} :
    splitChainFrom room body out = .ok all ↔ ∃ more, all = out ++ more ∧ all ≠ [] ∧ more.length ≤ room ∧
      (∀ document ∈ more, document ≠ [] ∧ document.length ≤ maxDocument) ∧ IsStream more body := by
  induction room generalizing body out with
  | zero =>
    rcases body with - | ⟨byte, rest⟩
    · exact splitChainFrom_nil_eq_ok_iff
    -- without room no document is read, and a stream with bytes has one
    refine iff_of_false nofun fun h ↦ ?_
    obtain ⟨more, -, -, hroom, -, hstream⟩ := h
    obtain rfl := List.length_eq_zero_iff.mp (Nat.le_zero.mp hroom)
    exact List.cons_ne_nil _ _ (isStream_nil_iff.mp hstream)
  | succ room ih =>
    -- the loop stops at the end of the bytes, even with room to spare
    by_cases hbody : body = []
    · rw [hbody]
      exact splitChainFrom_nil_eq_ok_iff
    rw [splitChainFrom_succ_eq_ok_iff hbody]
    constructor
    · intro h
      obtain ⟨document, after, hsized, hbytes, hrest⟩ := h
      obtain ⟨more, rfl, hsome, hroom, hmore, hstream⟩ := ih.mp hrest
      refine ⟨document :: more, by rw [List.append_assoc, List.singleton_append], hsome,
        Nat.succ_le_succ hroom, List.forall_mem_cons.mpr ⟨hsized, hmore⟩, ?_⟩
      exact isStream_cons_iff.mpr ⟨length_lt_of_le_maxDocument hsized.2, after, hbytes, hstream⟩
    · intro h
      obtain ⟨more, rfl, hsome, hroom, hmore, hstream⟩ := h
      rcases more with - | ⟨document, more⟩
      · exact absurd (isStream_nil_iff.mp hstream) hbody
      obtain ⟨-, after, hbytes, hafter⟩ := isStream_cons_iff.mp hstream
      obtain ⟨hsized, hmore⟩ := List.forall_mem_cons.mp hmore
      refine ⟨document, after, hsized, hbytes, ih.mpr ⟨more, ?_, hsome, Nat.le_of_succ_le_succ hroom, hmore,
        hafter⟩⟩
      rw [List.append_assoc, List.singleton_append]

/-- **What is split.** -/
theorem splitChain_eq_ok_iff : splitChain body = .ok documents ↔ IsChain documents ∧ IsStream documents body := by
  rw [splitChain, splitChainFrom_eq_ok_iff]
  constructor
  · intro h
    obtain ⟨more, hmore, hsome, hroom, hsized, hstream⟩ := h
    obtain rfl : documents = more := hmore
    exact ⟨⟨hsome, hroom, hsized⟩, hstream⟩
  · intro h
    exact ⟨documents, rfl, h.1.some_, h.1.room, h.1.sized, h.2⟩

/-- **Joining and splitting are inverse to each other.** -/
theorem strict_joinChain_splitChain : Strict joinChain splitChain :=
  fun _ _ ↦ splitChain_eq_ok_iff.trans joinChain_eq_ok_iff.symm

/-! ### The response that carries a chain -/

/-- What splits into documents can itself be counted. -/
theorem length_body_lt (h : splitChain body = .ok documents) : body.length < 2 ^ 32 := by
  obtain ⟨hchain, hstream⟩ := splitChain_eq_ok_iff.mp h
  have hlength := length_frames_le fun document hdocument ↦ (hchain.sized document hdocument).2
  have hroom := Nat.mul_le_mul_right (4 + maxDocument) hchain.room
  have hbound : maxChainDocuments * (4 + maxDocument) < 2 ^ 32 := by decide
  rw [hstream.eq_frames]
  exact (hlength.trans hroom).trans_lt hbound

/-- A chain response is written if and only if its action grant fits a field. -/
theorem exists_encodeChainReply_iff (h : splitChain body = .ok documents) (leaseVerifyKey : Option Digest)
    (actionGrant : Option (List UInt8)) :
    (∃ bytes, encodeChainReply body leaseVerifyKey actionGrant = .ok bytes) ↔
      ∀ grant ∈ actionGrant, grant.length < 2 ^ 32 := by
  have htags : ((chainContents body leaseVerifyKey actionGrant).map Prod.fst).Pairwise (· < ·) := by
    rw [chainContents, List.map_append, List.map_append]
    exact List.Pairwise.sublist (((optField_tags_sublist ChainTag.leaseVerifyKey _).append
      (optField_tags_sublist ChainTag.actionGrant _)).cons_cons ChainTag.documents) (by decide)
  have hwritten : (∀ grant ∈ writtenGrant actionGrant, grant.length < 2 ^ 32) ↔
      ∀ grant ∈ actionGrant, grant.length < 2 ^ 32 := by
    rcases actionGrant with - | grant
    · rfl
    by_cases hgrant : grant = []
    · simp [hgrant, writtenGrant]
    · simp [hgrant, writtenGrant, Option.filter]
  have hkey : ∀ value ∈ leaseVerifyKey.map List.Vector.toList, value.length < 2 ^ 32 := by
    intro value hvalue
    obtain ⟨key, -, rfl⟩ := Option.mem_map.mp hvalue
    rw [key.toList_length]
    decide
  simp only [encodeChainReply_eq_ok_iff, exists_and_left, Encodes.exists_iff]
  rw [and_iff_right ⟨documents, h⟩, and_iff_right htags, chainContents, List.forall_mem_append,
    List.forall_mem_append, forall_mem_optField, forall_mem_optField, List.forall_mem_singleton,
    and_iff_right (length_body_lt h)]
  exact (and_iff_right hkey).trans hwritten

/-- **A chain response is delivered** if and only if its action grant fits a field. -/
theorem chainResponse_delivered_iff (sha : Sha2) (h : splitChain body = .ok documents)
    (leaseVerifyKey : Option Digest) {actionGrant : Option (List UInt8)} (hgrant : actionGrant ≠ some []) :
    (∃ message, encodeResponse (.chain body leaseVerifyKey actionGrant) = .ok message ∧
      decodeResponse sha message = .ok (.chain body leaseVerifyKey actionGrant)) ↔
      ∀ grant ∈ actionGrant, grant.length < 2 ^ 32 := by
  rw [← exists_encodeChainReply_iff h leaseVerifyKey]
  have hparts : responseParts (.chain body leaseVerifyKey actionGrant) =
      (encodeChainReply body leaseVerifyKey actionGrant).map (Prod.mk Kind.chain) := rfl
  constructor
  · intro hdelivered
    obtain ⟨message, hencode, -⟩ := hdelivered
    obtain ⟨kind, bytes, hresponse, -⟩ := encodeResponse_eq_ok_iff.mp hencode
    obtain ⟨bytes, hbytes, -⟩ := Except.map_eq_ok_iff.mp (hparts ▸ hresponse)
    exact ⟨bytes, hbytes⟩
  · intro hwritten
    obtain ⟨bytes, hbytes⟩ := hwritten
    rw [hbytes, Except.ok_map] at hparts
    exact ⟨_, encodeResponse_eq_ok_iff.mpr ⟨_, _, hparts, rfl⟩,
      (decodeResponseBody_eq_ok_iff sha hparts).mpr hgrant⟩

end OpenCrate.Protocol.Activation

namespace OpenCrate.Protocol.Agent

open OpenCrate.Format OpenCrate.Crypto
open Activation (IsChain maxChainDocuments maxDocument joinChain splitChain encodeResponse decodeResponse)

variable {sha : Sha2} {ed : Ed25519} {authorKey : Digest} {grant : List UInt8} {links : List (List UInt8)}
  {actions : Option (List UInt8)} {now : Int64} {f : ChainFacts}

/-! ### What the verifier accepts -/

/-- A signed document is not empty. -/
theorem ne_nil_of_splitSignature {bytes body : List UInt8} {signature : Signature}
    (h : splitSignature bytes = .ok (signature, body)) : bytes ≠ [] := by
  obtain rfl := splitSignature_eq_ok_iff.mp h
  refine List.ne_nil_of_length_pos ?_
  rw [List.length_append, signature.toList_length]
  exact Nat.add_pos_left (by decide) _

/-- A grant that is read has bytes. -/
theorem ne_nil_of_decodeGrant {signed : AgentGrant} (h : decodeGrant sha ed grant authorKey = .ok signed) :
    grant ≠ [] := by
  obtain ⟨_, hsplit, -⟩ := Except.bind_eq_ok_iff.mp h
  exact ne_nil_of_splitSignature hsplit

/-- And so has every link. -/
theorem ne_nil_of_linkStep {withActions : Bool} {facts facts' : ChainFacts} {raw : List UInt8} {index : ℕ}
    (h : linkStep sha ed withActions now facts (raw, index) = .ok facts') : raw ≠ [] := by
  obtain ⟨link, actions, hfollows, -, -⟩ := linkStep_eq_ok_iff.mp h
  obtain ⟨_, hsplit, -⟩ := Except.bind_eq_ok_iff.mp hfollows.decoded
  exact ne_nil_of_splitSignature hsplit

/-- **The documents of an accepted chain are a chain of the wire**: the depth of the grant bounds the
links. -/
theorem isChain_of_verify (h : verifyGrantChainWithActions sha ed authorKey grant links actions now = .ok f)
    (hsize : ∀ document ∈ grant :: links, document.length ≤ maxDocument) : IsChain (grant :: links) where
  some_ := List.cons_ne_nil _ _
  room := by
    obtain ⟨signed, root, hsigned, -, -, -, hrun⟩ := verifyGrantChainWithActions_eq_ok_iff.mp h
    have hdepth := (ChainFacts.Attenuates.run hrun).depthLeft_le
    have hmax : signed.maxDepth.toNat ≤ maxGrantDepth.toNat :=
      UInt8.le_iff_toNat_le.mp (maxDepth_le_of_decodeGrant hsigned)
    rw [List.length_zipIdx, show (rootFacts signed root).depthLeft = signed.maxDepth from rfl] at hdepth
    rw [List.length_cons, maxChainDocuments]
    omega
  sized := by
    obtain ⟨signed, root, hsigned, -, -, -, hrun⟩ := verifyGrantChainWithActions_eq_ok_iff.mp h
    refine fun document hdocument ↦ ⟨?_, hsize document hdocument⟩
    rcases List.mem_cons.mp hdocument with rfl | hlink
    · exact ne_nil_of_decodeGrant hsigned
    obtain ⟨index, hindex⟩ : ∃ index, (document, index) ∈ links.zipIdx := by
      obtain ⟨index, hlt, rfl⟩ := List.mem_iff_getElem.mp hlink
      exact ⟨index, List.mk_mem_zipIdx_iff_getElem?.mpr (List.getElem?_eq_getElem hlt)⟩
    obtain ⟨facts, facts', hstep⟩ := Except.exists_of_mem_foldlM hrun hindex
    exact ne_nil_of_linkStep hstep

/-- **Every chain the verifier accepts can be delivered**, with every action grant that fits a field, and
every body is the one of its documents. -/
theorem chains_are_delivered :
    (∀ (sha : Sha2) (ed : Ed25519) (authorKey : Digest) (grant : List UInt8) (links : List (List UInt8))
      (actions : Option (List UInt8)) (now : Int64) (f : ChainFacts),
      verifyGrantChainWithActions sha ed authorKey grant links actions now = .ok f →
      (∀ document ∈ grant :: links, document.length ≤ maxDocument) →
        ∃ body, joinChain (grant :: links) = .ok body ∧ splitChain body = .ok (grant :: links) ∧
          ∀ (leaseVerifyKey : Option Digest) (actionGrant : Option (List UInt8)), actionGrant ≠ some [] →
            ((∃ message, encodeResponse (.chain body leaseVerifyKey actionGrant) = .ok message ∧
              decodeResponse sha message = .ok (.chain body leaseVerifyKey actionGrant)) ↔
              ∀ bytes ∈ actionGrant, bytes.length < 2 ^ 32)) ∧
    ∀ body documents, splitChain body = .ok documents → joinChain documents = .ok body := by
  refine ⟨fun sha ed authorKey grant links actions now f h hsize ↦ ?_, fun body documents h ↦
    Activation.strict_joinChain_splitChain.mp h⟩
  have hchain := isChain_of_verify h hsize
  have hfits : ∀ document ∈ grant :: links, document.length < 2 ^ 32 := fun document hdocument ↦
    Activation.length_lt_of_le_maxDocument (hsize document hdocument)
  have hsplit := Activation.splitChain_eq_ok_iff.mpr ⟨hchain, hfits, rfl⟩
  exact ⟨frames (grant :: links), Activation.strict_joinChain_splitChain.mp hsplit, hsplit,
    fun leaseVerifyKey _ hgrant ↦ Activation.chainResponse_delivered_iff sha hsplit leaseVerifyKey hgrant⟩

/-- The sample chain is delivered with its action grant. -/
theorem chains_are_delivered_sampleChain :
    ∃ body, joinChain [sampleGrantBytes, sampleLinkBytes] = .ok body ∧
      ∃ message, encodeResponse (.chain body none (some sampleActionsBytes)) = .ok message ∧
        decodeResponse sampleSha message = .ok (.chain body none (some sampleActionsBytes)) := by
  have hsize : ∀ document ∈ [sampleGrantBytes, sampleLinkBytes], document.length ≤ maxDocument := by
    decide +kernel
  obtain ⟨body, hjoin, -, hdelivered⟩ := chains_are_delivered.1 _ _ _ _ _ _ _ _ verify_sampleChain hsize
  refine ⟨body, hjoin, (hdelivered none (some sampleActionsBytes) ?_).mpr ?_⟩
  · decide +kernel
  · decide +kernel

/-- A response that carries the sample chain with an action grant of `2 ^ 32` bytes is not written. -/
theorem long_action_grant_not_delivered :
    ¬∀ (sha : Sha2) (ed : Ed25519) (authorKey : Digest) (grant : List UInt8) (links : List (List UInt8))
      (actions : Option (List UInt8)) (now : Int64) (f : ChainFacts),
      verifyGrantChainWithActions sha ed authorKey grant links actions now = .ok f →
      (∀ document ∈ grant :: links, document.length ≤ maxDocument) →
        ∃ body, joinChain (grant :: links) = .ok body ∧ splitChain body = .ok (grant :: links) ∧
          ∀ (leaseVerifyKey : Option Digest) (actionGrant : List UInt8), actionGrant ≠ [] →
            ∃ message, encodeResponse (.chain body leaseVerifyKey (some actionGrant)) = .ok message ∧
              decodeResponse sha message = .ok (.chain body leaseVerifyKey (some actionGrant)) := by
  intro h
  have hsize : ∀ document ∈ [sampleGrantBytes, sampleLinkBytes], document.length ≤ maxDocument := by
    decide +kernel
  obtain ⟨body, -, hsplit, hdelivered⟩ := h _ _ _ _ _ _ _ _ verify_sampleChain hsize
  have hne : List.replicate (2 ^ 32) (0 : UInt8) ≠ [] :=
    List.ne_nil_of_length_pos (by rw [List.length_replicate]; exact Nat.two_pow_pos 32)
  have hfits := (Activation.chainResponse_delivered_iff sampleSha hsplit none
    (fun heq ↦ hne (Option.some.inj heq))).mp (hdelivered none _ hne)
  have hlength := hfits _ rfl
  rw [List.length_replicate] at hlength
  exact absurd hlength (Nat.lt_irrefl _)

end OpenCrate.Protocol.Agent
