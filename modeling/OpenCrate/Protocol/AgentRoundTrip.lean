import OpenCrate.Format.PolicyMeaning
import OpenCrate.Protocol.SignedDocuments

/-!
# What the writers of agents write, their readers read

Grants and links carry file entries and a restriction beside their own fields. Nothing bounds the
sealed blocks of an entry, so that not every grant can be written; but what was read can be, since an
entry is written in no more space than it was read from.
-/

namespace OpenCrate.Protocol

namespace Agent

open OpenCrate.Format OpenCrate.Crypto
open Except (refuseIf okOr)

/-! ### Entries -/

/-- The tags and values of an entry. -/
def entryContents (entry : Entry) : Contents :=
  [(EntryTag.fileId, entry.fileId.toList), (EntryTag.enc, entry.shareB.enc),
    (EntryTag.nonce, entry.shareB.nonce.toList), (EntryTag.ct, entry.shareB.ct)]

/-- An entry is its records. -/
theorem encodeEntry_eq_ok_iff {entry : Entry} {bytes : List UInt8} :
    encodeEntry entry = .ok bytes ↔ Encodes bytes (entryContents entry) := by
  simp only [encodeEntry, TlvWriter.new_put_bind, TlvWriter.putMany_put_bind,
    TlvWriter.putMany_finish_eq_ok_iff, entryContents, List.cons_append, List.nil_append]

theorem recordStep_decodeEntryStep : RecordStep [1, 2, 3, 4] decodeEntryStep where
  span_free _ _ _ _ _ := rfl
  skips acc tag value span h := by
    unfold decodeEntryStep
    split <;> first | rfl | simp_all

/-- **An entry is read back.** -/
theorem decodeEntry_encodeEntry {entry : Entry} {bytes : List UInt8}
    (h : encodeEntry entry = .ok bytes) : decodeEntry bytes = .ok entry := by
  rw [decodeEntry, recordStep_decodeEntryStep.foldFields_eq (encodeEntry_eq_ok_iff.mp h)]
  simp [entryContents, readField, decodeEntryStep, EntryTag.fileId, EntryTag.enc, EntryTag.nonce,
    EntryTag.ct]

/-- What was read of an entry stands in its document. -/
structure EntryReading.In (l : Contents) (acc : EntryReading) : Prop where
  fileId : ∀ v ∈ acc.fileId, (EntryTag.fileId, v.toList) ∈ l
  enc : ∀ v ∈ acc.enc, (EntryTag.enc, v) ∈ l
  nonce : ∀ v ∈ acc.nonce, (EntryTag.nonce, v.toList) ∈ l
  ct : ∀ v ∈ acc.ct, (EntryTag.ct, v) ∈ l

/-- Nothing has been read at first. -/
theorem EntryReading.in_start {l : Contents} : ({} : EntryReading).In l :=
  ⟨nofun, nofun, nofun, nofun⟩

/-- One record puts its own value into what was read. -/
theorem EntryReading.In.decodeEntryStep {l : Contents} {acc acc' : EntryReading} {field : Field}
    (hacc : acc.In l) (hfield : (field.tag, field.value) ∈ l)
    (h : decodeEntryStep acc field = .ok acc') : acc'.In l := by
  unfold Agent.decodeEntryStep at h
  obtain ⟨tag, value, span⟩ := field
  split at h
  · next htag =>
    obtain rfl : tag = _ := htag
    obtain ⟨v, hv, rfl⟩ := Except.map_eq_ok_iff.mp h
    obtain rfl := Field.array_eq_ok_iff.mp hv
    exact { hacc with fileId := fun _ heq ↦ Option.some.inj heq ▸ hfield }
  · next htag =>
    obtain rfl : tag = _ := htag
    obtain rfl := Except.ok.inj h
    exact { hacc with enc := fun _ heq ↦ Option.some.inj heq ▸ hfield }
  · next htag =>
    obtain rfl : tag = _ := htag
    obtain ⟨v, hv, rfl⟩ := Except.map_eq_ok_iff.mp h
    obtain rfl := Field.array_eq_ok_iff.mp hv
    exact { hacc with nonce := fun _ heq ↦ Option.some.inj heq ▸ hfield }
  · next htag =>
    obtain rfl : tag = _ := htag
    obtain rfl := Except.ok.inj h
    exact { hacc with ct := fun _ heq ↦ Option.some.inj heq ▸ hfield }
  · exact eq_of_skipUnknown h ▸ hacc

/-- An entry that was read can be written in no more space. -/
theorem exists_encodeEntry {bytes : List UInt8} {entry : Entry} (h : decodeEntry bytes = .ok entry) :
    ∃ bytes', encodeEntry entry = .ok bytes' ∧ bytes'.length ≤ bytes.length := by
  simp only [decodeEntry, Except.bind_eq_ok_iff, Except.okOr_eq_ok_iff] at h
  obtain ⟨acc, hacc, fileId, hfile, enc, henc, nonce, hnonce, ct, hct, hentry⟩ := h
  obtain rfl := Except.ok.inj hentry
  obtain ⟨l, hl, hfold⟩ := exists_encodes_of_foldFields hacc
  have hin : acc.In l := Except.foldlM_invariant hfold EntryReading.in_start
    fun field hfield _ _ hc hstep ↦ hc.decodeEntryStep (mem_of_mem_fieldsOf hfield) hstep
  have hsub : entryContents ⟨fileId, ⟨enc, nonce, ct⟩⟩ ⊆ l := by
    simp only [entryContents, List.cons_subset, List.nil_subset, and_true]
    exact ⟨hin.fileId _ hfile, hin.enc _ henc, hin.nonce _ hnonce, hin.ct _ hct⟩
  have htags : ((entryContents ⟨fileId, ⟨enc, nonce, ct⟩⟩).map Prod.fst).Pairwise (· < ·) := by
    simp [entryContents, EntryTag.fileId, EntryTag.enc, EntryTag.nonce, EntryTag.ct]
  have hfits := hl.fits
  obtain ⟨bytes', henc'⟩ := Encodes.exists_iff.mpr ⟨htags, fun p hp ↦ hfits p (hsub hp)⟩
  refine ⟨bytes', encodeEntry_eq_ok_iff.mpr henc', ?_⟩
  rw [henc'.length_eq, hl.length_eq]
  exact encodedLength_le_of_subset (List.Nodup.of_map _ (htags.imp ne_of_lt)) hsub

/-- Entries are numbered in their order. -/
theorem entryRecord_eq_ok_iff (index : ℕ) (entry : Entry) (tag : UInt16) (value : List UInt8) :
    entryRecord index entry = .ok (tag, value) ↔
      index < 2 ^ 16 ∧ tag = UInt16.ofNat index ∧ encodeEntry entry = .ok value := by
  simp only [entryRecord, Except.bind_eq_ok_iff, indexTag_eq_ok_iff, Except.ok.injEq, Prod.mk.injEq]
  constructor
  · rintro ⟨tag, ⟨hlt, rfl⟩, value, hvalue, rfl, rfl⟩
    exact ⟨hlt, rfl, hvalue⟩
  · rintro ⟨hlt, rfl, hvalue⟩
    exact ⟨_, ⟨hlt, rfl⟩, value, hvalue, rfl, rfl⟩

/-- A written file list is read back, if it is one. -/
theorem decodeEntries_encodeEntries {entries : List Entry} {bytes : List UInt8} {tag : UInt16}
    (hcheck : checkEntries entries tag = .ok ()) (h : encodeEntries entries = .ok bytes) :
    decodeEntries bytes tag = .ok entries := by
  have hlen := not_lt.mp (Except.refuseIf_eq_ok_iff.mp (Except.check_bind_eq_ok_iff.mp hcheck).1)
  rw [decodeEntries, TlvReader.collect_writeEach entryRecord_eq_ok_iff decodeEntry_encodeEntry h hlen,
    Except.ok_bind, hcheck, Except.ok_bind]

/-- A file list that was read can be written in no more space. -/
theorem exists_encodeEntries {bytes : List UInt8} {entries : List Entry} {tag : UInt16}
    (h : decodeEntries bytes tag = .ok entries) :
    ∃ bytes', encodeEntries entries = .ok bytes' ∧ bytes'.length ≤ bytes.length := by
  obtain ⟨entries', hread, h⟩ := Except.bind_eq_ok_iff.mp h
  obtain ⟨-, h⟩ := Except.check_bind_eq_ok_iff.mp h
  obtain rfl := Except.ok.inj h
  exact TlvReader.exists_writeEach_of_collect entryRecord_eq_ok_iff exists_encodeEntry hread
    (by decide)

/-! ### Holders and restrictions -/

variable {sha : Sha2}

/-- A holder that is named has a key of 32 bytes. -/
theorem length_of_checkHolderName {fpr : Digest} {kem : UInt8} {publicKey : List UInt8}
    {kemTag fprTag : UInt16} (h : checkHolderName sha fpr kem publicKey kemTag fprTag = .ok ()) :
    publicKey.length = 32 := by
  simp only [checkHolderName, Except.bind_eq_ok_iff, Except.refuseIf_eq_ok_iff, not_not,
    Except.mapError_eq_ok_iff] at h
  obtain ⟨⟨⟩, rfl, alg, halg, named, hnamed, -⟩ := h
  obtain rfl : KemAlg.x25519HkdfSha256 = alg := Except.ok.inj halg
  simp only [Kdf.deviceFpr, Except.bind_eq_ok_iff, Except.okOr_eq_ok_iff, Except.refuseIf_eq_ok_iff,
    not_not] at hnamed
  obtain ⟨-, -, expected, hexpected, -, hlen, -⟩ := hnamed
  exact hlen.trans (Option.some.inj hexpected).symm

/-- What a restriction is read back as. -/
def normalTightening (tightening : Option Policy) : Option Policy :=
  tightening.map (PolicyCodec.normal containerVersion)

/-- A policy is read back in its normal form. -/
theorem decodeTightening_encodeTightening {policy : Policy} {bytes : List UInt8}
    (h : encodeTightening policy = .ok bytes) :
    decodeTightening bytes = .ok (PolicyCodec.normal containerVersion policy) := by
  obtain ⟨bytes', hencode, -, hdecode⟩ := PolicyCodec.decode_encode_normal containerVersion policy
  obtain rfl := Except.ok.inj (h.symm.trans hencode)
  exact hdecode

/-- What is read is in normal form. -/
theorem normal_of_decodeTightening {policy : Policy} {bytes : List UInt8}
    (h : decodeTightening bytes = .ok policy) :
    PolicyCodec.normal containerVersion policy = policy :=
  PolicyCodec.normal_of_decode h

/-- The written form of an optional restriction. -/
theorem exists_encodeTighteningOpt (tightening : Option Policy) :
    ∃ bytes, encodeTighteningOpt tightening = .ok bytes ∧ ∀ b ∈ bytes, b.length < 2 ^ 32 := by
  rcases tightening with - | policy
  · exact ⟨none, rfl, nofun⟩
  · obtain ⟨bytes, hencode, hlen, -⟩ := PolicyCodec.decode_encode_normal containerVersion policy
    refine ⟨some bytes, Except.map_eq_ok_iff.mpr ⟨bytes, hencode, rfl⟩, ?_⟩
    rintro _ ⟨⟩
    exact hlen

/-- What was read of entries and a restriction can be written, and the restriction is normal. -/
structure Rewritable (entries : Option (List Entry)) (tightening : Option Policy) : Prop where
  entries : ∀ es ∈ entries, ∃ bytes, encodeEntries es = .ok bytes ∧ bytes.length < 2 ^ 32
  tightening : ∀ policy ∈ tightening, PolicyCodec.normal containerVersion policy = policy

theorem rewritable_none : Rewritable none none := ⟨nofun, nofun⟩

/-- Reading entries keeps what was read writable. -/
theorem Rewritable.read_entries {entries : Option (List Entry)} {tightening : Option Policy}
    (h : Rewritable entries tightening) {bytes : List UInt8} (hlen : bytes.length < 2 ^ 32)
    {tag : UInt16} {es : List Entry} (hread : decodeEntries bytes tag = .ok es) :
    Rewritable (some es) tightening where
  entries := by
    rintro _ ⟨⟩
    obtain ⟨bytes', hbytes', hle⟩ := exists_encodeEntries hread
    exact ⟨bytes', hbytes', hle.trans_lt hlen⟩
  tightening := h.tightening

/-- Reading a policy keeps it so. -/
theorem Rewritable.read_tightening {entries : Option (List Entry)} {tightening : Option Policy}
    (h : Rewritable entries tightening) {bytes : List UInt8} {policy : Policy}
    (hread : decodeTightening bytes = .ok policy) : Rewritable entries (some policy) where
  entries := h.entries
  tightening := by
    rintro _ ⟨⟩
    exact normal_of_decodeTightening hread

/-- What can be written again is in normal form. -/
theorem Rewritable.normalTightening_eq {entries : Option (List Entry)} {tightening : Option Policy}
    (h : Rewritable entries tightening) : normalTightening tightening = tightening := by
  rcases tightening with - | policy
  · rfl
  · exact congrArg some (h.tightening policy rfl)

/-! ### Grants -/

/-- The tags and values of a grant, given the bytes of its entries and of its restriction. -/
def grantContents (grant : AgentGrant) (entries : List UInt8) (tightening : Option (List UInt8)) :
    Contents :=
  [(Tag.grantId, grant.grantId.toList), (Tag.doorFpr, grant.doorFpr.toList),
    (Tag.doorKem, [grant.doorKem]), (Tag.doorPublic, grant.doorPublic),
    (Tag.doorVerify, grant.doorVerify.toList), (Tag.entries, entries),
    (Tag.issuedAt, toLeBytes grant.issuedAt), (Tag.expiresAt, toLeBytes grant.expiresAt)] ++
  (optField Tag.tightening tightening ++
    [(Tag.maxDepth, [grant.maxDepth]), (Tag.authorKey, grant.authorKey.toList)])

/-- The body of a grant is its records around the entries and the policy. -/
theorem grantBody_eq_ok_iff {grant : AgentGrant} {bytes : List UInt8} :
    grantBody sha grant = .ok bytes ↔ checkGrantShape sha grant = .ok () ∧
      ∃ entries, encodeEntries grant.entries = .ok entries ∧
        ∃ tightening, encodeTighteningOpt grant.tightening = .ok tightening ∧
          Encodes bytes (grantContents grant entries tightening) := by
  simp only [grantBody, Except.check_bind_eq_ok_iff, TlvWriter.new_put_bind,
    TlvWriter.putMany_put_bind, TlvWriter.putMany_putOpt_bind, TlvWriter.putMany_bind_eq_ok_iff,
    TlvWriter.putMany_finish_eq_ok_iff, grantContents, List.cons_append, List.nil_append,
    List.append_assoc]

theorem recordStep_decodeGrantStep :
    RecordStep [1, 2, 3, 4, 5, 6, 7, 8, 9, 10, 11] decodeGrantStep where
  span_free _ _ _ _ _ := rfl
  skips acc tag value span h := by
    unfold decodeGrantStep
    split <;> first | rfl | simp_all

/-- What a grant is read back as. -/
def AgentGrant.normal (grant : AgentGrant) : AgentGrant :=
  { grant with tightening := normalTightening grant.tightening }

/-- **A grant is read back in its normal form.** -/
theorem decodeGrantBody_grantBody {grant : AgentGrant} {bytes : List UInt8}
    (h : grantBody sha grant = .ok bytes) :
    decodeGrantBody sha grant.signature bytes = .ok grant.normal := by
  obtain ⟨hshape, entries, hentries, tightening, htightening, henc⟩ := grantBody_eq_ok_iff.mp h
  obtain ⟨hcheck, -⟩ := Except.check_bind_eq_ok_iff.mp (Except.check_bind_eq_ok_iff.mp hshape).2
  have hread : decodeEntries entries 6 = .ok grant.entries :=
    decodeEntries_encodeEntries hcheck hentries
  have hshape : ∀ t, checkGrantShape sha { grant with tightening := t } = .ok () := fun _ ↦ hshape
  rw [AgentGrant.normal, decodeGrantBody, recordStep_decodeGrantStep.foldFields_eq henc]
  rcases htight : grant.tightening with - | policy
  · rw [htight] at htightening
    obtain rfl := Except.ok.inj htightening
    simp [grantContents, readField, decodeGrantStep, Tag.grantId, Tag.doorFpr, Tag.doorKem,
      Tag.doorPublic, Tag.doorVerify, Tag.entries, Tag.issuedAt, Tag.expiresAt, Tag.maxDepth,
      Tag.authorKey, hread, normalTightening, hshape]
  · rw [htight] at htightening
    obtain ⟨bytes, hbytes, rfl⟩ := Except.map_eq_ok_iff.mp htightening
    have hrestriction := decodeTightening_encodeTightening hbytes
    simp [grantContents, readField, decodeGrantStep, Tag.grantId, Tag.doorFpr, Tag.doorKem,
      Tag.doorPublic, Tag.doorVerify, Tag.entries, Tag.issuedAt, Tag.expiresAt, Tag.tightening,
      Tag.maxDepth, Tag.authorKey, hread, hrestriction, normalTightening, hshape]

/-- One record of a grant keeps what was read writable. -/
theorem rewritable_of_decodeGrantStep {acc acc' : GrantReading} {field : Field}
    (hacc : Rewritable acc.entries acc.tightening) (hlen : field.value.length < 2 ^ 32)
    (h : decodeGrantStep acc field = .ok acc') : Rewritable acc'.entries acc'.tightening := by
  unfold decodeGrantStep at h
  split at h
  case h_4 =>
    obtain rfl := Except.ok.inj h
    exact hacc
  case h_6 =>
    obtain ⟨entries, hread, rfl⟩ := Except.map_eq_ok_iff.mp h
    exact hacc.read_entries hlen hread
  case h_9 =>
    obtain ⟨policy, hread, rfl⟩ := Except.map_eq_ok_iff.mp h
    exact hacc.read_tightening hread
  case h_12 => exact eq_of_skipUnknown h ▸ hacc
  -- the other fields touch neither
  all_goals
    obtain ⟨_, -, rfl⟩ := Except.map_eq_ok_iff.mp h
    exact hacc

/-- What is known of a grant whose body was read. -/
theorem rewritable_of_decodeGrantBody {signature : Signature} {body : List UInt8} {grant : AgentGrant}
    (h : decodeGrantBody sha signature body = .ok grant) :
    checkGrantShape sha grant = .ok () ∧ grant.signature = signature ∧
      Rewritable (some grant.entries) grant.tightening := by
  simp only [decodeGrantBody, Except.bind_eq_ok_iff, Except.okOr_eq_ok_iff] at h
  obtain ⟨acc, hacc, _, -, _, -, _, -, _, -, _, -, entries, hentries, _, -, _, -, _, -, _, -, ⟨⟩,
    hshape, hgrant⟩ := h
  obtain rfl := Except.ok.inj hgrant
  obtain ⟨l, hl, hfold⟩ := exists_encodes_of_foldFields hacc
  have hfits := hl.fits
  have hinv := Except.foldlM_invariant
    (P := fun acc : GrantReading ↦ Rewritable acc.entries acc.tightening) hfold
  have hacc := hinv rewritable_none fun field hfield _ _ hc hstep ↦
    rewritable_of_decodeGrantStep hc (hfits _ (mem_of_mem_fieldsOf hfield)) hstep
  exact ⟨hshape, rfl, hentries ▸ hacc⟩

/-- A grant of the right shape whose entries can be written can be written. -/
theorem exists_grantBody {grant : AgentGrant} (hshape : checkGrantShape sha grant = .ok ())
    (hparts : Rewritable (some grant.entries) grant.tightening) :
    ∃ bytes, grantBody sha grant = .ok bytes := by
  obtain ⟨entries, hentries, hlen⟩ := hparts.entries _ rfl
  obtain ⟨tightening, htightening, htlen⟩ := exists_encodeTighteningOpt grant.tightening
  have hpublic := length_of_checkHolderName (Except.check_bind_eq_ok_iff.mp hshape).1
  have htags : ((grantContents grant entries tightening).map Prod.fst).Pairwise (· < ·) := by
    rcases tightening with - | _ <;>
      simp [grantContents, Tag.grantId, Tag.doorFpr, Tag.doorKem, Tag.doorPublic, Tag.doorVerify,
        Tag.entries, Tag.issuedAt, Tag.expiresAt, Tag.tightening, Tag.maxDepth, Tag.authorKey]
  have hfits : ∀ p ∈ grantContents grant entries tightening, p.2.length < 2 ^ 32 := by
    simp only [grantContents, List.forall_mem_append, List.forall_mem_cons, forall_mem_optField,
      List.Vector.toList_length, length_toLeBytes, LeInt.width_int64, List.length_singleton, hpublic]
    exact ⟨by simpa using hlen, htlen, by simp⟩
  obtain ⟨bytes, henc⟩ := Encodes.exists_iff.mpr ⟨htags, hfits⟩
  exact ⟨bytes, grantBody_eq_ok_iff.mpr ⟨hshape, entries, hentries, tightening, htightening, henc⟩⟩

/-- The codec of grants. -/
def grantCodec (sha : Sha2) (ed : Ed25519) : SignedCodec AgentGrant where
  transcript := grantTranscript
  signature := AgentGrant.signature
  authorKey grant := some grant.authorKey
  body := grantBody sha
  decodeBody := decodeGrantBody sha
  encode := encodeGrant sha
  decode := decodeGrant sha ed

/-- **Grants** obey the law of signed writers and readers. -/
theorem law_grantCodec (sha : Sha2) (ed : Ed25519) :
    (grantCodec sha ed).Law ed AgentGrant.normal := by
  refine .of_body (fun _ ↦ rfl) verified_named_eq_ok_iff (fun _ ↦ rfl) decodeGrantBody_grantBody ?_
  intro signature body grant h
  obtain ⟨hshape, hsignature, hparts⟩ := rewritable_of_decodeGrantBody h
  refine ⟨hsignature, ?_, exists_grantBody hshape hparts⟩
  rw [AgentGrant.normal, hparts.normalTightening_eq]

/-! ### Links -/

/-- The bytes of the actions of a link; no actions are not written. -/
def encodeActionsOpt (actions : List ActionRule) : Except FormatError (Option (List UInt8)) :=
  if actions = [] then .ok none else (Action.encodeRules actions).map some

/-- The tags and values of a link, given the bytes of its entries, restriction and actions. -/
def delegationContents (link : Delegation) (entries : List UInt8)
    (tightening actions : Option (List UInt8)) : Contents :=
  [(LinkTag.grantId, link.grantId.toList), (LinkTag.parentFpr, link.parentFpr.toList),
    (LinkTag.childFpr, link.childFpr.toList), (LinkTag.childKem, [link.childKem]),
    (LinkTag.childPublic, link.childPublic), (LinkTag.childVerify, link.childVerify.toList),
    (LinkTag.entries, entries), (LinkTag.expiresAt, toLeBytes link.expiresAt)] ++
  (optField LinkTag.tightening tightening ++
    ([(LinkTag.depth, [link.depth])] ++ optField LinkTag.actions actions))

/-- The body of a delegation has the actions, too. -/
theorem delegationBody_eq_ok_iff {link : Delegation} {bytes : List UInt8} :
    delegationBody sha link = .ok bytes ↔ checkDelegationShape sha link = .ok () ∧
      ∃ entries, encodeEntries link.entries = .ok entries ∧
        ∃ tightening, encodeTighteningOpt link.tightening = .ok tightening ∧
          ∃ actions, encodeActionsOpt link.actions = .ok actions ∧
            Encodes bytes (delegationContents link entries tightening actions) := by
  by_cases hnil : link.actions = []
  · simp only [delegationBody, encodeActionsOpt, if_pos hnil, Except.check_bind_eq_ok_iff,
      TlvWriter.new_put_bind, TlvWriter.putMany_put_bind, TlvWriter.putMany_putOpt_bind,
      TlvWriter.putMany_bind_eq_ok_iff, TlvWriter.putMany_finish_eq_ok_iff, delegationContents,
      List.cons_append, List.nil_append, Except.ok.injEq, exists_eq_left', optField_none]
  · simp only [delegationBody, encodeActionsOpt, if_neg hnil, Except.check_bind_eq_ok_iff,
      TlvWriter.new_put_bind, TlvWriter.putMany_put_bind, TlvWriter.putMany_putOpt_bind,
      TlvWriter.putMany_bind_eq_ok_iff, TlvWriter.putMany_finish_eq_ok_iff, delegationContents,
      List.cons_append, List.nil_append, List.append_assoc, Except.map_eq_ok_iff,
      exists_exists_and_eq_and, optField_some]

/-- What a link is read back as. -/
def Delegation.normal (link : Delegation) : Delegation :=
  { link with tightening := normalTightening link.tightening }

/-- **A delegation is read back in its normal form.** -/
theorem decodeDelegationBody_delegationBody {link : Delegation} {bytes : List UInt8}
    (h : delegationBody sha link = .ok bytes) :
    decodeDelegationBody sha link.signature bytes = .ok link.normal := by
  obtain ⟨hshape, entries, hentries, tightening, htightening, actions, hactions, henc⟩ :=
    delegationBody_eq_ok_iff.mp h
  obtain ⟨hcheck, -⟩ := Except.check_bind_eq_ok_iff.mp (Except.check_bind_eq_ok_iff.mp hshape).2
  have hread : decodeEntries entries 7 = .ok link.entries :=
    decodeEntries_encodeEntries hcheck hentries
  have hshape : ∀ t, checkDelegationShape sha { link with tightening := t } = .ok () :=
    fun _ ↦ hshape
  -- the actions are the last field, so that they can be left to the end
  have htail : ∀ acc : LinkReading, acc.actions = [] →
      (optField LinkTag.actions actions).foldlM (readField decodeDelegationStep) acc =
        .ok { acc with actions := link.actions } := by
    intro acc hacc
    rw [encodeActionsOpt] at hactions
    split_ifs at hactions with hnil
    · obtain rfl := Except.ok.inj hactions
      rw [hnil, ← hacc]
      rfl
    · obtain ⟨rules, hrules, rfl⟩ := Except.map_eq_ok_iff.mp hactions
      simp [readField, decodeDelegationStep, LinkTag.actions, Action.decodeRules_encodeRules hrules]
  rw [Delegation.normal, decodeDelegationBody, recordStep_decodeDelegationStep.foldFields_eq henc]
  rcases htight : link.tightening with - | policy
  · rw [htight] at htightening
    obtain rfl := Except.ok.inj htightening
    simp [delegationContents, readField, decodeDelegationStep, LinkTag.grantId, LinkTag.parentFpr,
      LinkTag.childFpr, LinkTag.childKem, LinkTag.childPublic, LinkTag.childVerify, LinkTag.entries,
      LinkTag.expiresAt, LinkTag.depth, hread, normalTightening, htail, hshape]
  · rw [htight] at htightening
    obtain ⟨bytes, hbytes, rfl⟩ := Except.map_eq_ok_iff.mp htightening
    have hrestriction := decodeTightening_encodeTightening hbytes
    simp [delegationContents, readField, decodeDelegationStep, LinkTag.grantId, LinkTag.parentFpr,
      LinkTag.childFpr, LinkTag.childKem, LinkTag.childPublic, LinkTag.childVerify, LinkTag.entries,
      LinkTag.expiresAt, LinkTag.tightening, LinkTag.depth, hread, hrestriction, normalTightening,
      htail, hshape]

/-- One record of a delegation keeps what was read writable. -/
theorem rewritable_of_decodeDelegationStep {acc acc' : LinkReading} {field : Field}
    (hacc : Rewritable acc.entries acc.tightening) (hlen : field.value.length < 2 ^ 32)
    (h : decodeDelegationStep acc field = .ok acc') :
    Rewritable acc'.entries acc'.tightening := by
  unfold decodeDelegationStep at h
  split at h
  case h_5 =>
    obtain rfl := Except.ok.inj h
    exact hacc
  case h_7 =>
    obtain ⟨entries, hread, rfl⟩ := Except.map_eq_ok_iff.mp h
    exact hacc.read_entries hlen hread
  case h_9 =>
    obtain ⟨policy, hread, rfl⟩ := Except.map_eq_ok_iff.mp h
    exact hacc.read_tightening hread
  case h_12 => exact eq_of_skipUnknown h ▸ hacc
  -- the other fields touch neither
  all_goals
    obtain ⟨_, -, rfl⟩ := Except.map_eq_ok_iff.mp h
    exact hacc

/-- What is known of a link whose body was read. -/
theorem rewritable_of_decodeDelegationBody {signature : Signature} {body : List UInt8}
    {link : Delegation} (h : decodeDelegationBody sha signature body = .ok link) :
    checkDelegationShape sha link = .ok () ∧ link.signature = signature ∧
      Rewritable (some link.entries) link.tightening := by
  simp only [decodeDelegationBody, Except.bind_eq_ok_iff, Except.okOr_eq_ok_iff] at h
  obtain ⟨acc, hacc, _, -, _, -, _, -, _, -, _, -, _, -, entries, hentries, _, -, _, -, ⟨⟩, hshape,
    hlink⟩ := h
  obtain rfl := Except.ok.inj hlink
  obtain ⟨l, hl, hfold⟩ := exists_encodes_of_foldFields hacc
  have hfits := hl.fits
  have hinv := Except.foldlM_invariant
    (P := fun acc : LinkReading ↦ Rewritable acc.entries acc.tightening) hfold
  have hacc := hinv rewritable_none fun field hfield _ _ hc hstep ↦
    rewritable_of_decodeDelegationStep hc (hfits _ (mem_of_mem_fieldsOf hfield)) hstep
  exact ⟨hshape, rfl, hentries ▸ hacc⟩

/-- The actions of a link of the right shape can be written. -/
theorem exists_encodeActionsOpt {actions : List ActionRule}
    (hlen : actions.length ≤ maxActionRules)
    (hshape : ∀ rule ∈ actions, checkRuleShape rule = .ok ()) :
    ∃ bytes, encodeActionsOpt actions = .ok bytes ∧ ∀ b ∈ bytes, b.length < 2 ^ 32 := by
  rw [encodeActionsOpt]
  split_ifs with hnil
  · exact ⟨none, rfl, nofun⟩
  · obtain ⟨rules, hrules, hle⟩ := Action.exists_encodeRules hlen hshape
    refine ⟨some rules, Except.map_eq_ok_iff.mpr ⟨rules, hrules, rfl⟩, ?_⟩
    rintro _ ⟨⟩
    exact hle.trans_lt (by decide)

/-- A link of the right shape whose entries can be written can be written. -/
theorem exists_delegationBody {link : Delegation} (h : checkDelegationShape sha link = .ok ())
    (hparts : Rewritable (some link.entries) link.tightening) :
    ∃ bytes, delegationBody sha link = .ok bytes := by
  obtain ⟨hholder, hshape⟩ := Except.check_bind_eq_ok_iff.mp h
  obtain ⟨-, hshape⟩ := Except.check_bind_eq_ok_iff.mp hshape
  obtain ⟨-, hshape⟩ := Except.check_bind_eq_ok_iff.mp hshape
  obtain ⟨hcount, hrules⟩ := Except.check_bind_eq_ok_iff.mp hshape
  have hpublic := length_of_checkHolderName hholder
  obtain ⟨entries, hentries, hlen⟩ := hparts.entries _ rfl
  obtain ⟨tightening, htightening, htlen⟩ := exists_encodeTighteningOpt link.tightening
  obtain ⟨actions, hactions, halen⟩ := exists_encodeActionsOpt
    (not_lt.mp (Except.refuseIf_eq_ok_iff.mp hcount)) (Except.forM_eq_ok_iff.mp hrules)
  have htags :
      ((delegationContents link entries tightening actions).map Prod.fst).Pairwise (· < ·) := by
    rcases tightening with - | _ <;> rcases actions with - | _ <;>
      simp [delegationContents, LinkTag.grantId, LinkTag.parentFpr, LinkTag.childFpr,
        LinkTag.childKem, LinkTag.childPublic, LinkTag.childVerify, LinkTag.entries,
        LinkTag.expiresAt, LinkTag.tightening, LinkTag.depth, LinkTag.actions]
  have hfits : ∀ p ∈ delegationContents link entries tightening actions, p.2.length < 2 ^ 32 := by
    simp only [delegationContents, List.forall_mem_append, List.forall_mem_cons, forall_mem_optField,
      List.Vector.toList_length, length_toLeBytes, LeInt.width_int64, List.length_singleton, hpublic]
    exact ⟨by simpa using hlen, htlen, by simp, halen⟩
  obtain ⟨bytes, henc⟩ := Encodes.exists_iff.mpr ⟨htags, hfits⟩
  exact ⟨bytes, delegationBody_eq_ok_iff.mpr
    ⟨h, entries, hentries, tightening, htightening, actions, hactions, henc⟩⟩

/-- The codec of links. A link names no author. -/
def delegationCodec (sha : Sha2) (ed : Ed25519) : SignedCodec Delegation where
  transcript := delegationTranscript
  signature := Delegation.signature
  authorKey _ := none
  body := delegationBody sha
  decodeBody := decodeDelegationBody sha
  encode := encodeDelegation sha
  decode := decodeDelegation sha ed

/-- **Links** obey the law of signed writers and readers. -/
theorem law_delegationCodec (sha : Sha2) (ed : Ed25519) :
    (delegationCodec sha ed).Law ed Delegation.normal := by
  refine .of_body (fun _ ↦ rfl) verified_unnamed_eq_ok_iff (fun _ ↦ rfl)
    decodeDelegationBody_delegationBody ?_
  intro signature body link h
  obtain ⟨hshape, hsignature, hparts⟩ := rewritable_of_decodeDelegationBody h
  refine ⟨hsignature, ?_, exists_delegationBody hshape hparts⟩
  rw [Delegation.normal, hparts.normalTightening_eq]

end Agent

open OpenCrate.Crypto

/-- **No writer of agents and actions produces what its reader refuses or reads differently.** The
documents of both modules obey the law of writers and readers: with a signature that is valid under
the key of the reader, and is that of the author named, if one is, a written document is read back
with its restriction in normal form; and what is read can be written and is read back as it is. -/
theorem documents_read_back (sha : Sha2) (ed : Ed25519) :
    (Agent.grantCodec sha ed).Law ed Agent.AgentGrant.normal ∧
      (Agent.delegationCodec sha ed).Law ed Agent.Delegation.normal ∧
      (Action.grantCodec ed).Law ed id ∧
      Except.WriterReader Action.encodeRequest Action.decodeRequest id ∧
      (Action.leaseCodec ed).Law ed id ∧
      Except.WriterReader Action.encodePending Action.decodePending id ∧
      (Action.decisionCodec ed).Law ed id :=
  ⟨Agent.law_grantCodec sha ed, Agent.law_delegationCodec sha ed, Action.law_grantCodec ed,
    Action.writerReader_request, Action.law_leaseCodec ed, Action.writerReader_pending,
    Action.law_decisionCodec ed⟩

end OpenCrate.Protocol
