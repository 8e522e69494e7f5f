import OpenCrate.Protocol.Access

/-!
# The one form of an access decision

Who verifies a decision does not keep the bytes it was read from: the signed body is built anew from the
parsed decision. So nothing may be in the bytes that is not in the decision. The reader refuses every
field it does not know, and then its loop can be inverted: what is read as a decision is what is written
for it (`decodeDecision_eq_ok_iff`), its body followed by its signature.
-/

namespace OpenCrate.Protocol.Access

open OpenCrate.Format OpenCrate.Crypto
open Except (refuseIf okOr)

/-! ### Writing a decision -/

/-- The sealed share, if there is one. -/
def putShare (w : TlvWriter) : Option Blob → Except FormatError TlvWriter
  | none => .ok w
  | some blob => do
    let w ← w.put Tag.enc blob.enc
    let w ← w.put Tag.nonce blob.nonce.toList
    w.put Tag.ct blob.ct

/-- Decision bytes without the signature: what is signed and verified. -/
def decisionBody (decision : Decision) : Except FormatError (List UInt8) := do
  let w ← TlvWriter.new.put Tag.fileId decision.fileId.toList
  let w ← w.put Tag.deviceFpr decision.deviceFpr.toList
  let w ← w.put Tag.seq (toLeBytes decision.seq)
  let w ← w.put Tag.approve [decision.approve.toUInt8]
  let w ← putShare w decision.shareB
  let w ← w.put Tag.authorKey decision.authorKey.toList
  .ok w.finish

/-- Encode a decision together with its signature. -/
def encodeDecision (decision : Decision) : Except FormatError (List UInt8) := do
  let body ← decisionBody decision
  let w ← TlvWriter.new.put Tag.signature decision.signature.toList
  .ok (body ++ w.finish)

/-! ### The fields of a decision -/

namespace Decision

/-- The tags and values of a share. -/
def shareContents : Option Blob → Contents
  | none => []
  | some blob => [(Tag.enc, blob.enc), (Tag.nonce, blob.nonce.toList), (Tag.ct, blob.ct)]

/-- The tags and values that are signed. -/
def unsignedContents (d : Decision) : Contents :=
  [(Tag.fileId, d.fileId.toList), (Tag.deviceFpr, d.deviceFpr.toList), (Tag.seq, toLeBytes d.seq),
    (Tag.approve, [d.approve.toUInt8])] ++ shareContents d.shareB ++
    [(Tag.authorKey, d.authorKey.toList)]

/-- The tag and value of the signature. -/
def signatureContents (d : Decision) : Contents := [(Tag.signature, d.signature.toList)]

/-- The tags and values of a decision. -/
def contents (d : Decision) : Contents := d.unsignedContents ++ d.signatureContents

/-- A share is there with an approval, and only then. -/
def Proper (d : Decision) : Prop := d.shareB.isSome ↔ d.approve

instance (d : Decision) : Decidable d.Proper := inferInstanceAs (Decidable (_ ↔ _))

/-- The two parts of a share that have no fixed length fit in a field. -/
def ShareFits (d : Decision) : Prop :=
  ∀ blob ∈ d.shareB, blob.enc.length < 2 ^ 32 ∧ blob.ct.length < 2 ^ 32

end Decision

variable {d : Decision} {bytes : List UInt8}

/-- The share is three optional records. -/
theorem putShare_eq_putMany (w : TlvWriter) (share : Option Blob) :
    putShare w share = w.putMany (Decision.shareContents share) := by
  cases share with
  | none => rfl
  | some blob =>
    simp only [Decision.shareContents, TlvWriter.putMany_cons]
    refine bind_congr fun w ↦ bind_congr fun w ↦ ?_
    exact (bind_pure (w.put Tag.ct blob.ct)).symm

/-- The body of a decision is its records without the signature. -/
theorem decisionBody_eq_ok_iff : decisionBody d = .ok bytes ↔ Encodes bytes d.unsignedContents := by
  have hshare : ∀ (l : Contents) (k : TlvWriter → Except FormatError (List UInt8)),
      (TlvWriter.new.putMany l >>= fun w ↦ putShare w d.shareB >>= k) =
        TlvWriter.new.putMany (l ++ Decision.shareContents d.shareB) >>= k := by
    intro l k
    rw [TlvWriter.putMany_append, bind_assoc]
    exact bind_congr fun w ↦ by rw [putShare_eq_putMany]
  simp only [decisionBody, TlvWriter.new_put_bind, TlvWriter.putMany_put_bind, hshare,
    TlvWriter.putMany_finish_eq_ok_iff, Decision.unsignedContents, List.cons_append, List.nil_append]

/-- The signature as it stands behind the body. -/
def signatureRecord (signature : Signature) : List UInt8 :=
  encodeContents [(Tag.signature, signature.toList)]

theorem fits_signatureContents (d : Decision) : ∀ p ∈ d.signatureContents, p.2.length < 2 ^ 32 := by
  refine List.forall_mem_singleton.2 ?_
  rw [List.Vector.toList_length]
  decide

/-- The signature is one record behind them. -/
theorem encodeDecision_eq :
    encodeDecision d = (decisionBody d).map fun body ↦ body ++ signatureRecord d.signature := by
  have hrecord : Encodes (signatureRecord d.signature) d.signatureContents :=
    Encodes.of_forall (List.pairwise_singleton ..) (fits_signatureContents d)
  have hwrite : (TlvWriter.new.put Tag.signature d.signature.toList >>= fun w ↦ .ok w.finish) =
      .ok (signatureRecord d.signature) := by
    rw [TlvWriter.new_put_bind]
    exact TlvWriter.putMany_finish_eq_ok_iff.2 hrecord
  obtain ⟨w, hput, hfinish⟩ := Except.bind_eq_ok_iff.1 hwrite
  rw [encodeDecision, ← Except.ok.inj hfinish, hput]
  rcases decisionBody d with e | body <;> rfl

/-- The records stand in the order of their tags. -/
theorem contents_increasing (d : Decision) : (d.contents.map Prod.fst).Pairwise (· < ·) := by
  rw [Decision.contents, Decision.unsignedContents, Decision.signatureContents]
  cases d.shareB with
  | none => exact show [1, 2, 6, 8, 12, 13].Pairwise (· < ·) by decide
  | some blob => exact show [1, 2, 6, 8, 9, 10, 11, 12, 13].Pairwise (· < ·) by decide

/-- The body and the signature are one document. -/
theorem encodeDecision_eq_ok_iff : encodeDecision d = .ok bytes ↔ Encodes bytes d.contents := by
  have happend : encodeContents d.contents =
      encodeContents d.unsignedContents ++ signatureRecord d.signature :=
    encodeContents_append _ _
  rw [encodeDecision_eq, Except.map_eq_ok_iff]
  constructor
  · rintro ⟨body, hbody, rfl⟩
    have henc := decisionBody_eq_ok_iff.1 hbody
    rw [henc.eq_encodeContents, ← happend]
    exact Encodes.of_forall (contents_increasing d)
      (List.forall_mem_append.2 ⟨henc.fits, fits_signatureContents d⟩)
  · intro henc
    have hbody := henc.of_sublist (List.sublist_append_left _ _)
    exact ⟨_, decisionBody_eq_ok_iff.2 hbody, by rw [henc.eq_encodeContents, happend]⟩

/-- Only the length of its share can keep a decision from being written. -/
theorem exists_encodeDecision_iff : (∃ bytes, encodeDecision d = .ok bytes) ↔ d.ShareFits := by
  simp only [encodeDecision_eq_ok_iff]
  rw [Encodes.exists_iff, and_iff_right (contents_increasing d)]
  simp only [Decision.contents, Decision.unsignedContents, Decision.signatureContents,
    List.forall_mem_append, List.forall_mem_cons, List.Vector.toList_length, length_toLeBytes,
    List.length_singleton, Decision.ShareFits]
  cases d.shareB with
  | none => simp [Decision.shareContents, Crypto.signatureLen]
  | some blob => simp [Decision.shareContents, Crypto.signatureLen]

/-! ### Reading a decision -/

/-- The tags of a decision. -/
def decisionTags : List UInt16 := [1, 2, 6, 8, 9, 10, 11, 12, 13]

/-- What is written for the slot of a tag. -/
def DecisionReading.value (acc : DecisionReading) (tag : UInt16) : Option (List UInt8) :=
  match tag with
  | 1 => acc.fileId.map List.Vector.toList
  | 2 => acc.deviceFpr.map List.Vector.toList
  | 6 => acc.seq.map toLeBytes
  | 8 => acc.approve.map fun approve ↦ [approve.toUInt8]
  | 9 => acc.enc
  | 10 => acc.nonce.map List.Vector.toList
  | 11 => acc.ct
  | 12 => acc.authorKey.map List.Vector.toList
  | 13 => acc.signature.map List.Vector.toList
  | _ => none

/-- A statement about all tags is nine statements. -/
theorem forall_mem_decisionTags {P : UInt16 → Prop} :
    (∀ tag ∈ decisionTags, P tag) ↔ P 1 ∧ P 2 ∧ P 6 ∧ P 8 ∧ P 9 ∧ P 10 ∧ P 11 ∧ P 12 ∧ P 13 := by
  simp only [decisionTags, List.forall_mem_cons, List.not_mem_nil, IsEmpty.forall_iff, implies_true,
    and_true]

/-- The approval is a flag in one byte. -/
theorem approveField_eq_ok_iff {f : Field} {approve : Bool} :
    (f.u8 >>= decodeApprove) = .ok approve ↔ f.value = [approve.toUInt8] := by
  have hbyte : ∀ byte : UInt8, decodeApprove byte = .ok approve ↔ byte = approve.toUInt8 := by
    intro byte
    unfold decodeApprove
    split <;> cases approve <;> simp_all [Bool.toUInt8]
  simp only [Except.bind_eq_ok_iff, Field.u8_eq_ok_iff, hbyte]
  exact exists_eq_right

namespace DecisionReading

/-- A field that is read fills the slot of its tag and leaves the other slots. -/
theorem reads {s s' : DecisionReading} {tag : UInt16} {value : List UInt8}
    (h : readField decodeDecisionStep s (tag, value) = .ok s') :
    tag ∈ decisionTags ∧ ∀ u ∈ decisionTags, s'.value u = if u = tag then some value else s.value u := by
  rw [readField, decodeDecisionStep] at h
  split at h
  case h_5 heq | h_7 heq =>
    obtain rfl : tag = _ := heq
    obtain rfl := Except.ok.inj h
    refine ⟨by decide, forall_mem_decisionTags.2 ?_⟩
    and_intros
    all_goals rfl
  case h_10 => exact absurd h Except.error_ne_ok
  all_goals
    rename_i heq
    obtain rfl : tag = _ := heq
    obtain ⟨v, hv, rfl⟩ := Except.map_eq_ok_iff.1 h
    have hvalue := by
      first
      | exact Field.le_eq_ok_iff.1 hv
      | exact Field.array_eq_ok_iff.1 hv
      | exact approveField_eq_ok_iff.1 hv
    obtain rfl : value = _ := hvalue
    refine ⟨by decide, forall_mem_decisionTags.2 ?_⟩
    and_intros
    all_goals rfl

/-- What is written for a slot is read. -/
theorem accepts (r s : DecisionReading) :
    ∀ tag ∈ decisionTags, ∀ value, r.value tag = some value →
      ∃ s', readField decodeDecisionStep s (tag, value) = .ok s' := by
  refine forall_mem_decisionTags.2 ⟨?fileId, ?deviceFpr, ?seq, ?approve, ?enc, ?nonce, ?ct, ?authorKey,
    ?signature⟩
  all_goals
    intro value hvalue
    simp only [readField, decodeDecisionStep]
  case enc | ct => exact ⟨_, rfl⟩
  case seq =>
    obtain ⟨v, -, rfl⟩ := Option.map_eq_some_iff.1 hvalue
    exact Except.exists_map_eq_ok (Field.le_eq_ok_iff.2 rfl)
  case approve =>
    obtain ⟨v, -, rfl⟩ := Option.map_eq_some_iff.1 hvalue
    exact Except.exists_map_eq_ok (approveField_eq_ok_iff.2 rfl)
  all_goals
    obtain ⟨v, -, rfl⟩ := Option.map_eq_some_iff.1 hvalue
    exact Except.exists_map_eq_ok (Field.array_eq_ok_iff.2 rfl)

/-- What is written for the slots determines them. -/
theorem ext_of_value {r r' : DecisionReading} (h : ∀ tag ∈ decisionTags, r.value tag = r'.value tag) :
    r = r' := by
  obtain ⟨fileId, deviceFpr, seq, approve, enc, nonce, ct, authorKey, signature⟩ :=
    forall_mem_decisionTags.1 h
  have harray {n : ℕ} : Function.Injective (Option.map (@List.Vector.toList UInt8 n)) :=
    Option.map_injective List.Vector.toList_injective
  have hflag : Function.Injective (Option.map fun approve : Bool ↦ [approve.toUInt8]) :=
    Option.map_injective fun a b h ↦ by
      cases a <;> cases b <;> first | rfl | exact absurd h (by decide)
  obtain ⟨⟩ := r
  obtain ⟨⟩ := r'
  simp only [DecisionReading.mk.injEq]
  exact ⟨Option.map_injective toLeBytes_injective seq, harray fileId, harray deviceFpr, hflag approve,
    enc, harray nonce, ct, harray authorKey, harray signature⟩

end DecisionReading

/-- Every tag has a slot of its own in what is read. -/
theorem slotStep_decodeDecisionStep :
    SlotStep decisionTags decodeDecisionStep DecisionReading.value fun _ ↦ True where
  reads _ _ _ h := ⟨trivial, (DecisionReading.reads h).2⟩
  accepts s htag _ hvalue := DecisionReading.accepts _ s _ htag _ hvalue
  ext _ _ := DecisionReading.ext_of_value

theorem strictStep_decodeDecisionStep : StrictStep decisionTags decodeDecisionStep where
  span_free _ _ _ _ _ := rfl
  refuses h := (DecisionReading.reads h).1

/-- The slots of a decision. -/
def DecisionReading.of (d : Decision) : DecisionReading where
  seq := some d.seq
  fileId := some d.fileId
  deviceFpr := some d.deviceFpr
  approve := some d.approve
  enc := d.shareB.map Blob.enc
  nonce := d.shareB.map Blob.nonce
  ct := d.shareB.map Blob.ct
  authorKey := some d.authorKey
  signature := some d.signature

/-- What is in the slots of a decision is what it writes. -/
theorem contents_of (d : Decision) :
    SlotStep.contents decisionTags DecisionReading.value (DecisionReading.of d) = d.contents := by
  simp only [SlotStep.contents, decisionTags, List.flatMap_cons, List.flatMap_nil]
  rw [Decision.contents, Decision.unsignedContents, Decision.signatureContents]
  rcases d with ⟨seq, fileId, deviceFpr, approve, - | blob, authorKey, signature⟩ <;> rfl

/-- **The share is put together from three slots**, and is there exactly if the decision approves. -/
theorem shareOf_eq_ok_iff {approve : Bool} {acc : DecisionReading} {share : Option Blob} :
    shareOf approve acc = .ok share ↔ (share.isSome ↔ approve) ∧ acc.enc = share.map Blob.enc ∧
      acc.nonce = share.map Blob.nonce ∧ acc.ct = share.map Blob.ct := by
  rcases share with - | ⟨enc, nonce, ct⟩ <;> unfold shareOf <;> split <;> simp_all

/-- The slots that are a decision. -/
theorem DecisionReading.eq_of_iff (d : Decision) {acc : DecisionReading} :
    acc = DecisionReading.of d ∧ d.Proper ↔
      acc.approve = some d.approve ∧ shareOf d.approve acc = .ok d.shareB ∧ acc.seq = some d.seq ∧
        acc.fileId = some d.fileId ∧ acc.deviceFpr = some d.deviceFpr ∧
        acc.authorKey = some d.authorKey ∧ acc.signature = some d.signature := by
  rw [shareOf_eq_ok_iff]
  constructor
  · rintro ⟨rfl, hproper⟩
    exact ⟨rfl, ⟨hproper, rfl, rfl, rfl⟩, rfl, rfl, rfl, rfl, rfl⟩
  · rintro ⟨happrove, ⟨hproper, henc, hnonce, hct⟩, hseq, hfile, hdevice, hauthor, hsignature⟩
    refine ⟨?_, hproper⟩
    obtain ⟨⟩ := acc
    simp only [of, DecisionReading.mk.injEq]
    exact ⟨hseq, hfile, hdevice, happrove, henc, hnonce, hct, hauthor, hsignature⟩

/-- **What is read as a decision is what is written for it.** -/
theorem decodeDecision_eq_ok_iff :
    decodeDecision bytes = .ok d ↔ encodeDecision d = .ok bytes ∧ d.Proper := by
  have hempty : ∀ u ∈ decisionTags, DecisionReading.value {} u = none := by
    refine forall_mem_decisionTags.2 ?_
    and_intros
    all_goals rfl
  have hread (acc : DecisionReading) :
      TlvReader.foldFields decodeDecisionStep (TlvReader.new bytes) {} = .ok acc ↔
        Encodes bytes (SlotStep.contents decisionTags DecisionReading.value acc) :=
    (slotStep_decodeDecisionStep.foldFields_eq_ok_iff strictStep_decodeDecisionStep (by decide) trivial
      hempty).trans (and_iff_right trivial)
  simp only [decodeDecision, Except.bind_eq_ok_iff, Except.okOr_eq_ok_iff, hread]
  rw [encodeDecision_eq_ok_iff, ← contents_of]
  constructor
  · rintro ⟨acc, henc, _, happrove, _, hshare, _, hseq, _, hfile, _, hdevice, _, hauthor, _, hsignature,
      hok⟩
    obtain rfl := Except.ok.inj hok
    obtain ⟨rfl, hproper⟩ :=
      (DecisionReading.eq_of_iff ⟨_, _, _, _, _, _, _⟩).2
        ⟨happrove, hshare, hseq, hfile, hdevice, hauthor, hsignature⟩
    exact ⟨henc, hproper⟩
  · rintro ⟨henc, hproper⟩
    obtain ⟨happrove, hshare, hseq, hfile, hdevice, hauthor, hsignature⟩ :=
      (DecisionReading.eq_of_iff d).1 ⟨rfl, hproper⟩
    exact ⟨_, henc, _, happrove, _, hshare, _, hseq, _, hfile, _, hdevice, _, hauthor, _, hsignature, rfl⟩

/-- **A decision has one form, and no byte of it is unsigned.** What is read is the body of the decision
followed by its signature, and is what is written for the decision; with an approval there is a share, and
only then. So the signed body and the signature leave no choice of bytes. A decision with its share in
place is written and read back unless a part of the share is too long for a field. -/
theorem decision_one_form :
    (∀ (b : List UInt8) (d : Decision), decodeDecision b = .ok d →
      encodeDecision d = .ok b ∧ (d.shareB.isSome ↔ d.approve) ∧
        ∃ body, decisionBody d = .ok body ∧ b = body ++ signatureRecord d.signature) ∧
    (∀ (b b' : List UInt8) (d d' : Decision), decodeDecision b = .ok d → decodeDecision b' = .ok d' →
      decisionBody d = decisionBody d' → d.signature = d'.signature → b = b') ∧
    ∀ d : Decision, (∃ b, encodeDecision d = .ok b ∧ decodeDecision b = .ok d) ↔
      (d.shareB.isSome ↔ d.approve) ∧
        ∀ blob ∈ d.shareB, blob.enc.length < 2 ^ 32 ∧ blob.ct.length < 2 ^ 32 := by
  refine ⟨fun b d h ↦ ?_, fun b b' d d' h h' hbody hsignature ↦ ?_, fun d ↦ ?_⟩
  · obtain ⟨hencode, hproper⟩ := decodeDecision_eq_ok_iff.1 h
    rw [encodeDecision_eq] at hencode
    obtain ⟨body, hbody, rfl⟩ := Except.map_eq_ok_iff.1 hencode
    refine ⟨?_, hproper, body, hbody, rfl⟩
    rw [encodeDecision_eq, hbody, Except.ok_map]
  · have hencode : encodeDecision d = .ok b := (decodeDecision_eq_ok_iff.1 h).1
    have hencode' : encodeDecision d' = .ok b' := (decodeDecision_eq_ok_iff.1 h').1
    rw [encodeDecision_eq, hbody, hsignature, ← encodeDecision_eq, hencode'] at hencode
    exact (Except.ok.inj hencode).symm
  · calc (∃ b, encodeDecision d = .ok b ∧ decodeDecision b = .ok d)
      _ ↔ ∃ b, encodeDecision d = .ok b ∧ d.Proper := by
        refine exists_congr fun b ↦ ?_
        rw [decodeDecision_eq_ok_iff]
        exact and_congr_right fun h ↦ and_iff_right h
      _ ↔ d.Proper ∧ d.ShareFits := by rw [exists_and_right, exists_encodeDecision_iff, and_comm]

/-! ### A share that is too long -/

/-- A decision that is proper, and has no wire form. -/
def longDecision : Decision where
  seq := 1
  fileId := List.Vector.replicate 16 0
  deviceFpr := List.Vector.replicate 32 0
  approve := true
  shareB := some ⟨[], List.Vector.replicate 24 0, List.replicate (2 ^ 32) 0⟩
  authorKey := List.Vector.replicate 32 0
  signature := List.Vector.replicate 64 0

theorem long_share_not_written :
    ¬∀ d : Decision, (d.shareB.isSome ↔ d.approve) →
      ∃ b, encodeDecision d = .ok b ∧ decodeDecision b = .ok d := by
  intro h
  obtain ⟨b, hencode, -⟩ := h longDecision (iff_of_true rfl rfl)
  have hfits : longDecision.ShareFits := exists_encodeDecision_iff.1 ⟨b, hencode⟩
  have hlength := (hfits _ rfl).2
  rw [List.length_replicate] at hlength
  exact absurd hlength (Nat.lt_irrefl _)

end OpenCrate.Protocol.Access
