import OpenCrate.Protocol.Envelope

/-!
# What the envelope reads back

The bodies of a fixed layout have one spelling: the reader accepts a body exactly when the writer writes it.
With the laws of the documents this decides, for every message that is written, whether it is read back
(`encodeMessage_readable_iff`).
-/

namespace OpenCrate.Protocol.Activation

open OpenCrate.Format OpenCrate.Crypto
open Except (refuseIf okOr)
open Control (splitAtChecked splitAtChecked_eq_some_iff)

/-! ### Bodies without fields -/

/-- A body of fixed length is taken as it is. -/
theorem exact_eq_ok_iff {n : ℕ} {body : List UInt8} {v : List.Vector UInt8 n} :
    exact n body = .ok v ↔ body = v.toList := by
  rw [exact, Except.okOr_eq_ok_iff, toVector?_eq_some_iff]

/-- A number is the body, with all of its bytes. -/
theorem exactLe_eq_ok_iff {τ : Type} [LeInt τ] {body : List UInt8} {x : τ} :
    exactLe body = .ok x ↔ body = toLeBytes x := by
  rw [exactLe, Except.okOr_eq_ok_iff, ofLeBytes?_eq_some_iff]

theorem noBody_eq_ok_iff {body : List UInt8} {u : Unit} : noBody body = .ok u ↔ body = [] := by
  rw [noBody, Except.refuseIf_eq_ok_iff, not_not]

/-- A document that the envelope does not look into is only measured. -/
theorem opaqueBody_eq_ok_iff {bytes out : List UInt8} :
    opaqueBody bytes = .ok out ↔ (bytes ≠ [] ∧ bytes.length ≤ maxDocument) ∧ out = bytes := by
  rw [opaqueBody, Except.check_bind_eq_ok_iff, Except.refuseIf_eq_ok_iff, not_or, not_lt, Except.ok.injEq]
  exact and_congr_right fun _ ↦ eq_comm

/-! ### Fixed layouts -/

/-- A request for a view is two numbers, and nothing behind them. -/
theorem decodeViewRequest_eq_ok_iff {body : List UInt8} {since upto : UInt64} :
    decodeViewRequest body = .ok (since, upto) ↔ body = viewRequest since upto := by
  simp only [decodeViewRequest, Except.refuseIf_eq_ok_iff, exists_const, not_not,
    Except.bind_eq_ok_iff, Except.okOr_eq_ok_iff, ofLeBytes?_eq_some_iff, Except.ok.injEq, Prod.mk.injEq]
  constructor
  · rintro ⟨-, _, hsince, _, hupto, rfl, rfl⟩
    rw [viewRequest, ← hsince, ← hupto, List.take_append_drop]
  · rintro rfl
    refine ⟨?_, since, List.take_left' (length_toLeBytes _), upto, List.drop_left' (length_toLeBytes _),
      rfl, rfl⟩
    rw [viewRequest, List.length_append, length_toLeBytes, length_toLeBytes, LeInt.width_uint64]

/-- A request for records names at least one, and no more than a page. -/
theorem decodeRecordsRequest_eq_ok_iff {body : List UInt8} {start : UInt64} {count : UInt32} :
    decodeRecordsRequest body = .ok (start, count) ↔
      (count ≠ 0 ∧ count.toNat ≤ Directory.maxPage) ∧ body = recordsRequest start count := by
  simp only [decodeRecordsRequest, Except.refuseIf_eq_ok_iff, exists_const, not_not,
    Except.bind_eq_ok_iff, Except.okOr_eq_ok_iff, ofLeBytes?_eq_some_iff, Except.ok.injEq, Prod.mk.injEq,
    not_or, not_lt]
  constructor
  · rintro ⟨-, _, hcount, hbound, _, hstart, rfl, rfl⟩
    refine ⟨hbound, ?_⟩
    rw [recordsRequest, ← hstart, ← hcount, List.take_append_drop]
  · rintro ⟨hbound, rfl⟩
    refine ⟨?_, count, List.drop_left' (length_toLeBytes _), hbound, start,
      List.take_left' (length_toLeBytes _), rfl, rfl⟩
    rw [recordsRequest, List.length_append, length_toLeBytes, length_toLeBytes, LeInt.width_uint64,
      LeInt.width_uint32]

/-- The rest of a buffer as a slice. -/
theorem slice?_to_end_iff {buf part : List UInt8} {start : ℕ} (hstart : start ≤ buf.length) :
    slice? buf start buf.length = some part ↔ buf.drop start = part := by
  rw [slice?_eq_some_iff, List.take_of_length_le (List.length_drop).le]
  exact ⟨fun h ↦ h.2.2, fun h ↦ ⟨hstart, le_rfl, h⟩⟩

/-- The files of a watch are counted in one byte, which is enough for as many as are allowed. -/
theorem encodeWatch_eq_ok_iff {files : List (List.Vector UInt8 16)} {since : UInt64} {body : List UInt8} :
    encodeWatch files since = .ok body ↔ (files ≠ [] ∧ files.length ≤ maxWatchFiles) ∧
      body = toLeBytes since ++ (UInt8.ofNat files.length :: files.flatMap List.Vector.toList) := by
  rw [encodeWatch, Except.check_bind_eq_ok_iff, Except.refuseIf_eq_ok_iff, not_or, not_lt]
  refine and_congr_right fun hbound ↦ ?_
  have hcount : UInt8.tryFrom files.length = some (UInt8.ofNat files.length) :=
    if_pos (hbound.2.trans_lt (by decide))
  rw [hcount, Except.okOr_some, Except.ok_bind, Except.ok.injEq, List.append_assoc]
  exact eq_comm

/-- **A watch is read exactly as it is written**: the count and the length of the body have to agree. -/
theorem decodeWatch_eq_ok_iff {body : List UInt8} {files : List (List.Vector UInt8 16)} {since : UInt64} :
    decodeWatch body = .ok (files, since) ↔ encodeWatch files since = .ok body := by
  simp only [decodeWatch, Except.refuseIf_eq_ok_iff, exists_const, not_not,
    Except.bind_eq_ok_iff, Except.okOr_eq_ok_iff, Option.bind_eq_some_iff, ofLeBytes?_eq_some_iff,
    Except.ok.injEq, Prod.mk.injEq, not_or, not_lt, chunksExact?_eq_some_iff (show 0 < 16 by decide),
    encodeWatch_eq_ok_iff]
  constructor
  · rintro ⟨_, ⟨_, hsince, rfl⟩, count, hcount, ⟨hpos, hbound⟩, rest, hrest, hlen, chunks, rfl, hchunks, rfl⟩
    subst hchunks
    obtain ⟨hhead, -⟩ := drop_eq_append_of_slice? hsince
    have hcons := drop_eq_cons_iff.mpr ⟨hcount, rfl⟩
    obtain ⟨htail, -⟩ := drop_eq_append_of_slice? hrest
    rw [List.drop_length, List.append_nil] at htail
    rw [length_flatMap_toList] at hlen
    -- the rest has to be as long as the count says
    have hfiles : chunks.length = count.toNat := Nat.eq_of_mul_eq_mul_right (by decide) hlen
    refine ⟨⟨?_, hfiles.trans_le hbound⟩, ?_⟩
    · rintro rfl
      exact hpos hfiles.symm
    · rw [hfiles, UInt8.ofNat_toNat, ← htail, ← hcons, ← hhead, List.drop_zero]
  · rintro ⟨⟨hne, hbound⟩, rfl⟩
    have hcount : (UInt8.ofNat files.length).toNat = files.length :=
      UInt8.toNat_ofNat_of_lt' (hbound.trans_lt (by decide))
    have hdrop : (toLeBytes since ++ (UInt8.ofNat files.length :: files.flatMap List.Vector.toList)).drop 8 =
        UInt8.ofNat files.length :: files.flatMap List.Vector.toList :=
      List.drop_left' (length_toLeBytes _)
    obtain ⟨hget, hrest⟩ := drop_eq_cons_iff.mp hdrop
    refine ⟨since, ⟨_, slice?_append [] (toLeBytes since) _, rfl⟩, _, hget, ?_, _,
      (slice?_to_end_iff ?_).mpr hrest.symm, ?_, files, rfl, rfl, rfl⟩
    · rw [hcount]
      exact ⟨fun h ↦ hne (List.length_eq_zero_iff.mp h), hbound⟩
    · rw [List.length_append, length_toLeBytes, LeInt.width_uint64, List.length_cons]
      omega
    · rw [length_flatMap_toList, hcount]

/-- Every message of this length is a request to collect, as its parts have fixed lengths. -/
theorem decodeCollect_eq_ok_iff {bytes : List UInt8} {c : CollectReq} :
    decodeCollect bytes = .ok c ↔ bytes = encodeCollect c := by
  simp only [decodeCollect, Except.refuseIf_eq_ok_iff, exists_const, not_not,
    Except.bind_eq_ok_iff, Except.okOr_eq_ok_iff, Option.bind_eq_some_iff, toVector?_eq_some_iff,
    Except.ok.injEq]
  constructor
  · rintro ⟨hlen, fileId, ⟨_, hfile, rfl⟩, fpr, ⟨_, hfpr, rfl⟩, rfl⟩
    obtain ⟨hhead, -⟩ := drop_eq_append_of_slice? hfile
    obtain ⟨htail, -⟩ := drop_eq_append_of_slice? hfpr
    rw [List.drop_of_length_le hlen.le, List.append_nil] at htail
    rw [encodeCollect, ← htail, ← hhead, List.drop_zero]
  · rintro rfl
    have hlen : (encodeCollect c).length = collectLen := by
      rw [encodeCollect, List.length_append, List.Vector.toList_length, List.Vector.toList_length, collectLen]
    have hfile := slice?_append [] c.fileId.toList c.deviceFpr.toList
    have hfpr := slice?_append c.fileId.toList c.deviceFpr.toList []
    simp only [List.Vector.toList_length, List.append_nil] at hfile hfpr
    exact ⟨hlen, _, ⟨_, hfile, rfl⟩, _, ⟨_, hfpr, rfl⟩, rfl⟩

/-- An endorsement is the key of the signer, and an order behind it. -/
theorem encodeEndorse_eq_ok_iff {signer : Digest} {order body : List UInt8} :
    encodeEndorse signer order = .ok body ↔ (order ≠ [] ∧ order.length ≤ maxDocument) ∧
      body = signer.toList ++ order := by
  simp only [encodeEndorse, Except.bind_eq_ok_iff, opaqueBody_eq_ok_iff, Except.ok.injEq]
  constructor
  · rintro ⟨_, ⟨hbound, rfl⟩, rfl⟩
    exact ⟨hbound, rfl⟩
  · rintro ⟨hbound, rfl⟩
    exact ⟨_, ⟨hbound, rfl⟩, rfl⟩

/-- It is read exactly as it is written. -/
theorem decodeEndorse_eq_ok_iff {body order : List UInt8} {signer : Digest} :
    decodeEndorse body = .ok (signer, order) ↔ encodeEndorse signer order = .ok body := by
  simp only [decodeEndorse, Except.bind_eq_ok_iff, Except.okOr_eq_ok_iff, Prod.exists,
    splitAtChecked_eq_some_iff, toVector?_eq_some_iff, opaqueBody_eq_ok_iff, Except.ok.injEq,
    Prod.mk.injEq, encodeEndorse_eq_ok_iff]
  constructor
  · rintro ⟨_, _, ⟨-, rfl⟩, _, rfl, _, ⟨hbound, rfl⟩, rfl, rfl⟩
    exact ⟨hbound, rfl⟩
  · rintro ⟨hbound, rfl⟩
    exact ⟨_, _, ⟨signer.toList_length, rfl⟩, _, rfl, _, ⟨hbound, rfl⟩, rfl, rfl⟩

/-- A registration is a header in a frame, and an order behind it. -/
theorem encodeRegister_eq_ok_iff {header order body : List UInt8} :
    encodeRegister header order = .ok body ↔
      ((header ≠ [] ∧ header.length ≤ maxDocument) ∧ order ≠ [] ∧ order.length ≤ maxDocument) ∧
        body = frame header ++ order := by
  rw [encodeRegister, Except.check_bind_eq_ok_iff, Except.refuseIf_eq_ok_iff, not_or, not_lt]
  refine Iff.trans (and_congr_right fun hheader ↦ ?_) and_assoc.symm
  have hlen : UInt32.tryFrom header.length = some (UInt32.ofNat header.length) :=
    if_pos (hheader.2.trans_lt (by decide))
  simp only [Except.bind_eq_ok_iff, opaqueBody_eq_ok_iff, hlen, Except.okOr_some, Except.ok.injEq, frame]
  constructor
  · rintro ⟨_, ⟨horder, rfl⟩, _, rfl, rfl⟩
    exact ⟨horder, rfl⟩
  · rintro ⟨horder, rfl⟩
    exact ⟨_, ⟨horder, rfl⟩, _, rfl, rfl⟩

/-- It is read exactly as it is written: the frame says where the header ends. -/
theorem decodeRegister_eq_ok_iff {body header order : List UInt8} :
    decodeRegister body = .ok (header, order) ↔ encodeRegister header order = .ok body := by
  simp only [decodeRegister, Except.bind_eq_ok_iff, exists_const, Except.okOr_eq_ok_iff,
    Prod.exists, splitAtChecked_eq_some_iff, ofLeBytes?_eq_some_iff, Except.refuseIf_eq_ok_iff, not_or,
    not_lt, opaqueBody_eq_ok_iff, Except.ok.injEq, Prod.mk.injEq, encodeRegister_eq_ok_iff]
  constructor
  · rintro ⟨_, _, ⟨-, rfl⟩, len, rfl, ⟨hpos, hbound⟩, _, _, ⟨hlen, rfl⟩, _, ⟨horder, rfl⟩, rfl, rfl⟩
    refine ⟨⟨⟨?_, hlen.trans_le hbound⟩, horder⟩, ?_⟩
    · rintro rfl
      exact hpos hlen.symm
    · rw [frame, hlen, UInt32.ofNat_toNat, List.append_assoc]
  · rintro ⟨⟨⟨hne, hbound⟩, horder⟩, rfl⟩
    have hlen : (UInt32.ofNat header.length).toNat = header.length :=
      UInt32.toNat_ofNat_of_lt' (hbound.trans_lt (by decide))
    refine ⟨_, header ++ order, ⟨length_toLeBytes (UInt32.ofNat header.length), ?_⟩, _, rfl, ?_, header, order,
      ⟨hlen.symm, rfl⟩, _, ⟨horder, rfl⟩, rfl, rfl⟩
    · rw [frame, List.append_assoc]
    · rw [hlen]
      exact ⟨fun h ↦ hne (List.length_eq_zero_iff.mp h), hbound⟩

/-- The proof of an author is a signature with something in front of it. -/
theorem encodeWatchAuthor_eq_ok_iff {since : UInt64} {proof body : List UInt8} :
    encodeWatchAuthor since proof = .ok body ↔
      (signatureLen < proof.length ∧ proof.length ≤ maxDocument) ∧ body = toLeBytes since ++ proof := by
  rw [encodeWatchAuthor, Except.check_bind_eq_ok_iff, Except.refuseIf_eq_ok_iff, not_or, not_le, not_lt,
    Except.ok.injEq]
  exact and_congr_right fun _ ↦ eq_comm

/-- It is read exactly as it is written. -/
theorem decodeWatchAuthor_eq_ok_iff {body proof : List UInt8} {since : UInt64} :
    decodeWatchAuthor body = .ok (since, proof) ↔ encodeWatchAuthor since proof = .ok body := by
  simp only [decodeWatchAuthor, Except.bind_eq_ok_iff, exists_const, Except.okOr_eq_ok_iff,
    Prod.exists, splitAtChecked_eq_some_iff, ofLeBytes?_eq_some_iff, Except.refuseIf_eq_ok_iff, not_or,
    not_le, not_lt, Except.ok.injEq, Prod.mk.injEq, encodeWatchAuthor_eq_ok_iff]
  constructor
  · rintro ⟨_, _, ⟨-, rfl⟩, hbound, _, rfl, rfl, rfl⟩
    exact ⟨hbound, rfl⟩
  · rintro ⟨hbound, rfl⟩
    exact ⟨_, _, ⟨length_toLeBytes _, rfl⟩, hbound, _, rfl, rfl, rfl⟩

/-- A flag is one of two bytes. -/
theorem decodeFlag_eq_ok_iff {bad : FormatError} {byte : UInt8} {value : Bool} :
    decodeFlag bad byte = .ok value ↔ byte = value.toUInt8 := by
  unfold decodeFlag
  split
  · cases value <;> simp [Bool.toUInt8]
  · cases value <;> simp [Bool.toUInt8]
  · cases value <;> simp_all [Bool.toUInt8]

/-- The outcome of a report is one of two bytes: a body that is read is the one that is written. -/
theorem decodeReport_eq_ok_iff {body : List UInt8} {seq : UInt64} {ok : Bool} {digest : Digest} :
    decodeReport body = .ok (seq, ok, digest) ↔ body = encodeReport seq ok digest := by
  simp only [decodeReport, Except.bind_eq_ok_iff, Except.okOr_eq_ok_iff, Option.bind_eq_some_iff,
    decodeFlag_eq_ok_iff, toVector?_eq_some_iff, ofLeBytes?_eq_some_iff, Except.ok.injEq, Prod.mk.injEq]
  constructor
  · rintro ⟨_, hseq, value, ⟨_, hflag, rfl⟩, _, ⟨_, hdigest, rfl⟩, _, rfl, rfl, rfl, rfl⟩
    obtain ⟨hhead, -⟩ := drop_eq_append_of_slice? hseq
    have hcons := drop_eq_cons_iff.mpr ⟨hflag, rfl⟩
    obtain ⟨htail, -⟩ := drop_eq_append_of_slice? hdigest
    rw [List.drop_length, List.append_nil] at htail
    rw [encodeReport, ← htail, List.append_assoc, List.singleton_append, ← hcons, ← hhead, List.drop_zero]
  · rintro rfl
    have hdrop : (encodeReport seq ok digest).drop 8 = ok.toUInt8 :: digest.toList := by
      rw [encodeReport, List.append_assoc]
      exact List.drop_left' (length_toLeBytes _)
    have hlen : (encodeReport seq ok digest).length = 41 := by
      simp [encodeReport]
    obtain ⟨hflag, hdigest⟩ := drop_eq_cons_iff.mp hdrop
    refine ⟨_, ?_, ok, ⟨_, hflag, rfl⟩, digest,
      ⟨_, (slice?_to_end_iff (by rw [hlen]; decide)).mpr hdigest.symm, rfl⟩, seq, rfl, rfl, rfl, rfl⟩
    rw [encodeReport, List.append_assoc]
    exact slice?_append [] (toLeBytes seq) _

/-- The body of an event, part by part. -/
def eventBytes (seq : UInt64) (event : UInt8) (fileId : List.Vector UInt8 16) (has : Bool) (fpr : Digest) :
    List UInt8 :=
  toLeBytes seq ++ (event :: (fileId.toList ++ (has.toUInt8 :: fpr.toList)))

/-- The fingerprint of an event counts only if it is announced; the bytes in its place are not checked. -/
theorem decodeEvent_eq_ok_iff {body : List UInt8} {n : Notice} :
    decodeEvent body = .ok n ↔ ∃ seq event fileId has fpr, body = eventBytes seq event fileId has fpr ∧
      n = .event seq event fileId (if has then some fpr else none) := by
  simp only [decodeEvent, Except.refuseIf_eq_ok_iff, exists_const, not_not, Except.bind_eq_ok_iff,
    Except.okOr_eq_ok_iff, Option.bind_eq_some_iff, decodeFlag_eq_ok_iff, toVector?_eq_some_iff,
    ofLeBytes?_eq_some_iff, Except.ok.injEq]
  constructor
  · rintro ⟨hlen, seq, ⟨_, hseq, rfl⟩, event, hevent, fileId, ⟨_, hfile, rfl⟩, _, hflag, fpr, ⟨_, hfpr, rfl⟩,
      has, rfl, rfl⟩
    refine ⟨seq, event, fileId, has, fpr, ?_, rfl⟩
    obtain ⟨hhead, -⟩ := drop_eq_append_of_slice? hseq
    obtain ⟨hmiddle, -⟩ := drop_eq_append_of_slice? hfile
    obtain ⟨htail, -⟩ := drop_eq_append_of_slice? hfpr
    rw [List.drop_of_length_le (i := 58) hlen.le, List.append_nil] at htail
    rw [eventBytes, ← htail, ← drop_eq_cons_iff.mpr ⟨hflag, rfl⟩, ← hmiddle,
      ← drop_eq_cons_iff.mpr ⟨hevent, rfl⟩, ← hhead, List.drop_zero]
  · rintro ⟨seq, event, fileId, has, fpr, rfl, rfl⟩
    have hlen : (eventBytes seq event fileId has fpr).length = noticeEventLen := by
      simp [eventBytes, noticeEventLen]
    have hevent : (eventBytes seq event fileId has fpr).drop 8 =
        event :: (fileId.toList ++ (has.toUInt8 :: fpr.toList)) :=
      List.drop_left' (length_toLeBytes _)
    obtain ⟨hevent, hfile⟩ := drop_eq_cons_iff.mp hevent
    have hflag : (eventBytes seq event fileId has fpr).drop 25 = has.toUInt8 :: fpr.toList := by
      rw [show 25 = 9 + 16 from rfl, ← List.drop_drop, ← hfile]
      exact List.drop_left' fileId.toList_length
    obtain ⟨hflag, hfpr⟩ := drop_eq_cons_iff.mp hflag
    have hfile := slice?_of_drop hfile.symm (by rw [hlen]; decide)
    have hfpr := (slice?_to_end_iff (by rw [hlen]; decide)).mpr hfpr.symm
    rw [List.Vector.toList_length] at hfile
    rw [hlen] at hfpr
    exact ⟨hlen, seq, ⟨_, slice?_append [] (toLeBytes seq) _, rfl⟩, event, hevent, fileId, ⟨_, hfile, rfl⟩, _,
      hflag, fpr, ⟨_, hfpr, rfl⟩, has, rfl, rfl⟩

/-- **A written notice is read back.** -/
theorem decodeNotice_encodeNotice (n : Notice) : decodeNotice (encodeNotice n) = .ok n := by
  cases n with
  | heartbeat => rfl
  | event seq event fileId deviceFpr =>
    refine decodeEvent_eq_ok_iff.mpr ?_
    cases deviceFpr with
    | none =>
      exact ⟨seq, event, fileId, false, List.Vector.replicate 32 0,
        by simp [eventBytes, fprBytes, Bool.toUInt8], rfl⟩
    | some fpr => exact ⟨seq, event, fileId, true, fpr, by simp [eventBytes, fprBytes, Bool.toUInt8], rfl⟩

/-- The text of a refusal is checked before it is read, by the rule of its writer. -/
theorem decodeRefusal_eq_ok_iff {body : List UInt8} {why : String} :
    decodeRefusal body = .ok why ↔ checkRefusal why = .ok () ∧ body = utf8 why := by
  simp only [decodeRefusal, Except.bind_eq_ok_iff, Except.okOr_eq_ok_iff, fromUtf8?_eq_some_iff,
    Except.ok.injEq]
  constructor
  · rintro ⟨_, rfl, ⟨⟩, hcheck, rfl⟩
    exact ⟨hcheck, rfl⟩
  · rintro ⟨hcheck, rfl⟩
    exact ⟨_, rfl, (), hcheck, rfl⟩

/-- Of one byte, only the two known bases are read. -/
theorem decodeBasis_singleton_iff {basis : UInt8} :
    decodeBasis [basis] = .ok basis ↔
      basis = Attestation.Basis.vendorCertificate ∨ basis = Attestation.Basis.enrolledEk := by
  unfold decodeBasis
  split
  case h_1 h => exact iff_of_true (by rw [List.singleton_inj.mp h]; rfl) (.inl (List.singleton_inj.mp h))
  case h_2 h => exact iff_of_true (by rw [List.singleton_inj.mp h]; rfl) (.inr (List.singleton_inj.mp h))
  case h_3 h₁ h₂ =>
    refine iff_of_false nofun ?_
    rintro (rfl | rfl)
    · exact h₁ rfl
    · exact h₂ rfl

/-! ### Chains -/

/-- The tags and values of a chain response. -/
def chainContents (documents : List UInt8) (leaseVerifyKey : Option Digest) (actionGrant : Option (List UInt8)) :
    Contents :=
  [(ChainTag.documents, documents)] ++
    (optField ChainTag.leaseVerifyKey (leaseVerifyKey.map List.Vector.toList) ++
      optField ChainTag.actionGrant (writtenGrant actionGrant))

/-- A reply with a chain is its records, if the documents in it can be split. -/
theorem encodeChainReply_eq_ok_iff {documents bytes : List UInt8} {leaseVerifyKey : Option Digest}
    {actionGrant : Option (List UInt8)} :
    encodeChainReply documents leaseVerifyKey actionGrant = .ok bytes ↔
      (∃ chain, splitChain documents = .ok chain) ∧
        Encodes bytes (chainContents documents leaseVerifyKey actionGrant) := by
  simp only [encodeChainReply, Except.bind_eq_ok_iff (x := splitChain documents), exists_and_right]
  refine and_congr_right fun _ ↦ ?_
  simp only [TlvWriter.new_put_bind, TlvWriter.putMany_putOpt_bind, TlvWriter.putMany_finish_eq_ok_iff,
    chainContents, List.append_assoc]

/-- The tags of a chain response. -/
def chainTags : List UInt16 := [1, 0x8001, 0x8002]

/-- The loop of the reader is one over records, with these tags. -/
theorem recordStep_decodeChainStep : RecordStep chainTags decodeChainStep where
  span_free _ _ _ _ _ := rfl
  skips acc tag value span h := by
    unfold decodeChainStep
    split <;> first | rfl | simp_all [chainTags]

/-- The loop reads the records of a reply. An empty grant of actions is lost on the way: it is written like
none. -/
theorem foldlM_chainContents {documents : List UInt8} {chain : List (List UInt8)}
    (hchain : splitChain documents = .ok chain) (leaseVerifyKey : Option Digest)
    (actionGrant : Option (List UInt8)) :
    (chainContents documents leaseVerifyKey actionGrant).foldlM (readField decodeChainStep) {} =
      .ok ⟨some documents, leaseVerifyKey, writtenGrant actionGrant⟩ := by
  have hne : ∀ bytes ∈ writtenGrant actionGrant, bytes ≠ [] := by
    intro bytes hbytes
    exact of_decide_eq_true (Option.filter_eq_some_iff.mp hbytes).2
  rw [chainContents]
  generalize writtenGrant actionGrant = written at hne
  cases leaseVerifyKey <;> cases written
  all_goals
    simp_all [readField, decodeChainStep, ChainTag.documents, ChainTag.leaseVerifyKey, ChainTag.actionGrant,
      chainField, nonemptyField, Except.refuseIf]

/-- **A written chain response is read back** if and only if its action grant is not empty. -/
theorem decodeChainReply_encodeChainReply_iff {documents bytes : List UInt8} {leaseVerifyKey : Option Digest}
    {actionGrant : Option (List UInt8)}
    (h : encodeChainReply documents leaseVerifyKey actionGrant = .ok bytes) :
    decodeChainReply bytes = .ok (documents, leaseVerifyKey, actionGrant) ↔ actionGrant ≠ some [] := by
  obtain ⟨⟨chain, hchain⟩, henc⟩ := encodeChainReply_eq_ok_iff.mp h
  rw [decodeChainReply, recordStep_decodeChainStep.foldFields_eq henc, foldlM_chainContents hchain]
  simp only [Except.ok_bind, Except.okOr_some, Except.ok.injEq, Prod.mk.injEq, true_and]
  cases actionGrant with
  | none =>
    exact iff_of_true rfl nofun
  | some bytes => simp [writtenGrant, Option.filter]

/-! ### Which bodies are read back -/

open Except (ReadsBackIff Strict)

/-- A codec is strict if it reads exactly what it writes. The codecs of the bodies are, one after the other:
those of opaque documents, of fixed lengths and of numbers. -/
theorem strict_opaqueBody : Strict opaqueBody opaqueBody := by
  intro a b
  rw [opaqueBody_eq_ok_iff, opaqueBody_eq_ok_iff]
  constructor
  all_goals
    rintro ⟨hbound, rfl⟩
    exact ⟨hbound, rfl⟩

theorem strict_exact (n : ℕ) :
    Strict (fun v : List.Vector UInt8 n ↦ .ok v.toList) (exact n) :=
  fun _ _ ↦ by rw [exact_eq_ok_iff, Except.ok.injEq, eq_comm]

theorem strict_exactLe {τ : Type} [LeInt τ] :
    Strict (fun x : τ ↦ .ok (toLeBytes x)) exactLe :=
  fun _ _ ↦ by rw [exactLe_eq_ok_iff, Except.ok.injEq, eq_comm]

theorem strict_noBody : Strict (fun _ : Unit ↦ .ok []) noBody :=
  fun _ _ ↦ by rw [noBody_eq_ok_iff, Except.ok.injEq, eq_comm]

theorem strict_viewRequest :
    Strict (fun p : UInt64 × UInt64 ↦ .ok (viewRequest p.1 p.2)) decodeViewRequest :=
  fun p _ ↦ by rw [← p.eta, decodeViewRequest_eq_ok_iff, Except.ok.injEq, eq_comm]

/-- This one writes more than it reads back. -/
theorem readsBackIff_recordsRequest :
    ReadsBackIff (fun p : UInt64 × UInt32 ↦ .ok (recordsRequest p.1 p.2)) decodeRecordsRequest
      fun p ↦ p.2 ≠ 0 ∧ p.2.toNat ≤ Directory.maxPage := by
  intro p body h
  rw [← p.eta, decodeRecordsRequest_eq_ok_iff]
  exact and_iff_left (Except.ok.inj h).symm

/-- Those of the requests with parts. -/
theorem strict_collect : Strict (fun c ↦ .ok (encodeCollect c)) decodeCollect :=
  fun _ _ ↦ by rw [decodeCollect_eq_ok_iff, Except.ok.injEq, eq_comm]

theorem strict_watch :
    Strict (fun p : List (List.Vector UInt8 16) × UInt64 ↦ encodeWatch p.1 p.2) decodeWatch :=
  fun p _ ↦ by rw [← p.eta, decodeWatch_eq_ok_iff]

theorem strict_watchAuthor :
    Strict (fun p : UInt64 × List UInt8 ↦ encodeWatchAuthor p.1 p.2) decodeWatchAuthor :=
  fun p _ ↦ by rw [← p.eta, decodeWatchAuthor_eq_ok_iff]

theorem strict_register :
    Strict (fun p : List UInt8 × List UInt8 ↦ encodeRegister p.1 p.2) decodeRegister :=
  fun p _ ↦ by rw [← p.eta, decodeRegister_eq_ok_iff]

theorem strict_endorse :
    Strict (fun p : Digest × List UInt8 ↦ encodeEndorse p.1 p.2) decodeEndorse :=
  fun p _ ↦ by rw [← p.eta, decodeEndorse_eq_ok_iff]

theorem strict_lookupRequest :
    Strict (fun p : String × String × UInt64 ↦ Directory.encodeLookupRequest p.1 p.2.1 p.2.2)
      Directory.decodeLookupRequest :=
  fun p _ ↦ by rw [← p.eta, ← p.2.eta, Directory.decodeLookupRequest_eq_ok_iff]

theorem ext_of_triple {α β γ : Type} {p q : α × β × γ} (h : p.1 = q.1 ∧ p.2.1 = q.2.1 ∧ p.2.2 = q.2.2) :
    p = q :=
  Prod.ext h.1 (Prod.ext h.2.1 h.2.2)

theorem strict_report :
    Strict (fun p : UInt64 × Bool × Digest ↦ .ok (encodeReport p.1 p.2.1 p.2.2)) decodeReport :=
  fun p _ ↦ by
    rw [← p.eta, ← p.2.eta, decodeReport_eq_ok_iff, Except.ok.injEq, eq_comm]

/-- A basis is written whatever it is, and read back if it is known. -/
theorem readsBackIff_attested :
    ReadsBackIff (fun basis ↦ .ok [basis]) decodeBasis
      fun basis ↦ basis = Attestation.Basis.vendorCertificate ∨ basis = Attestation.Basis.enrolledEk := by
  intro basis body h
  rw [← Except.ok.inj h, decodeBasis_singleton_iff]

/-! ### Messages of a device -/

/-- **Which device messages are read back.** These are the checks that only the reader makes. -/
def Request.Readable : Request → Prop
  | .hello greeting => greeting.Fits
  | .prove proof => proof.echo.length = 32
  | .activate req => req.devicePublic ≠ [] ∧ req.size ≤ maxDocument
  | .renew req => req.devicePublic ≠ [] ∧ req.size ≤ maxDocument
  | .directoryRecords _ count => count ≠ 0 ∧ count.toNat ≤ Directory.maxPage
  | _ => True

/-- A request is its kind and its body. -/
theorem encodeRequest_eq_ok_iff {request : Request} {message : List UInt8} :
    encodeRequest request = .ok message ↔
      ∃ kind body, requestParts request = .ok (kind, body) ∧ message = kind :: body := by
  simp only [encodeRequest, Except.bind_eq_ok_iff, Prod.exists, Except.ok.injEq, eq_comm (b := message)]

/-- The body that is written for a message is read back as the reader of its kind allows. -/
theorem decodeRequestBody_eq_ok_iff {request : Request} {kind : UInt8} {body : List UInt8}
    (h : requestParts request = .ok (kind, body)) :
    decodeRequestBody kind body = .ok request ↔ request.Readable := by
  -- one case for each kind of request: its own reader, under its own tag
  cases request with
  | hello _ =>
    exact ReadsBackIff.tagged (fun _ _ ↦ decodeHello_encodeHello_iff) (fun _ _ ↦ Request.hello.inj)
      decodeRequestBody (fun _ ↦ rfl) h
  | prove _ =>
    exact ReadsBackIff.tagged (fun _ _ ↦ decodeProof_encodeProof_iff) (fun _ _ ↦ Request.prove.inj)
      decodeRequestBody (fun _ ↦ rfl) h
  | activate _ =>
    exact ReadsBackIff.tagged (fun _ _ ↦ decodeReq_encodeReq_iff) (fun _ _ ↦ Request.activate.inj)
      decodeRequestBody (fun _ ↦ rfl) h
  | ask _ =>
    exact ReadsBackIff.tagged (fun _ _ h ↦ iff_true_intro (Access.decodeAsk_encodeAsk h))
      (fun _ _ ↦ Request.ask.inj)
      decodeRequestBody (fun _ ↦ rfl) h
  | requests _ =>
    exact ReadsBackIff.tagged (strict_exact 16).readsBackIff (fun _ _ ↦ Request.requests.inj)
      decodeRequestBody (fun _ ↦ rfl) h
  | collect _ =>
    exact ReadsBackIff.tagged strict_collect.readsBackIff (fun _ _ ↦ Request.collect.inj)
      decodeRequestBody (fun _ ↦ rfl) h
  | watch files since =>
    exact strict_watch.readsBackIff.tagged (C := fun p ↦ Request.watch p.1 p.2) (a := (files, since))
      (fun _ _ h ↦ Prod.ext_iff.mpr (Request.watch.inj h)) decodeRequestBody (fun _ ↦ rfl) h
  | watchAuthor since proof =>
    exact strict_watchAuthor.readsBackIff.tagged (C := fun p ↦ Request.watchAuthor p.1 p.2)
      (a := (since, proof))
      (fun _ _ h ↦ Prod.ext_iff.mpr (Request.watchAuthor.inj h)) decodeRequestBody (fun _ ↦ rfl) h
  | revocation _ =>
    exact ReadsBackIff.tagged (strict_exact 16).readsBackIff (fun _ _ ↦ Request.revocation.inj)
      decodeRequestBody (fun _ ↦ rfl) h
  | renew _ =>
    exact ReadsBackIff.tagged (fun _ _ ↦ decodeReq_encodeReq_iff) (fun _ _ ↦ Request.renew.inj)
      decodeRequestBody (fun _ ↦ rfl) h
  | register header order =>
    exact strict_register.readsBackIff.tagged (C := fun p ↦ Request.register p.1 p.2)
      (a := (header, order))
      (fun _ _ h ↦ Prod.ext_iff.mpr (Request.register.inj h)) decodeRequestBody (fun _ ↦ rfl) h
  | revoke _ =>
    exact ReadsBackIff.tagged strict_opaqueBody.readsBackIff (fun _ _ ↦ Request.revoke.inj)
      decodeRequestBody (fun _ ↦ rfl) h
  | decide _ =>
    exact ReadsBackIff.tagged strict_opaqueBody.readsBackIff (fun _ _ ↦ Request.decide.inj)
      decodeRequestBody (fun _ ↦ rfl) h
  | order _ =>
    exact ReadsBackIff.tagged strict_opaqueBody.readsBackIff (fun _ _ ↦ Request.order.inj)
      decodeRequestBody (fun _ ↦ rfl) h
  | endorse signer order =>
    exact strict_endorse.readsBackIff.tagged (C := fun p ↦ Request.endorse p.1 p.2)
      (a := (signer, order))
      (fun _ _ h ↦ Prod.ext_iff.mpr (Request.endorse.inj h)) decodeRequestBody (fun _ ↦ rfl) h
  | standing _ =>
    exact ReadsBackIff.tagged (strict_exact 16).readsBackIff (fun _ _ ↦ Request.standing.inj)
      decodeRequestBody (fun _ ↦ rfl) h
  | attestOpen =>
    exact strict_noBody.readsBackIff.tagged (C := fun _ ↦ Request.attestOpen)
      (a := ()) (fun _ _ _ ↦ rfl) decodeRequestBody (fun _ ↦ rfl) h
  | attestEvidence _ =>
    exact ReadsBackIff.tagged (fun _ _ h ↦ iff_true_intro (Attestation.decodeEvidence_encodeEvidence h))
      (fun _ _ ↦ Request.attestEvidence.inj)
      decodeRequestBody (fun _ ↦ rfl) h
  | attestSecret _ =>
    exact ReadsBackIff.tagged (strict_exact _).readsBackIff (fun _ _ ↦ Request.attestSecret.inj)
      decodeRequestBody (fun _ ↦ rfl) h
  | registerEdition _ =>
    exact ReadsBackIff.tagged strict_opaqueBody.readsBackIff (fun _ _ ↦ Request.registerEdition.inj)
      decodeRequestBody (fun _ ↦ rfl) h
  | journalView since upto =>
    exact strict_viewRequest.readsBackIff.tagged (C := fun p ↦ Request.journalView p.1 p.2)
      (a := (since, upto))
      (fun _ _ h ↦ Prod.ext_iff.mpr (Request.journalView.inj h)) decodeRequestBody (fun _ ↦ rfl) h
  | directoryView since upto =>
    exact strict_viewRequest.readsBackIff.tagged (C := fun p ↦ Request.directoryView p.1 p.2)
      (a := (since, upto))
      (fun _ _ h ↦ Prod.ext_iff.mpr (Request.directoryView.inj h)) decodeRequestBody (fun _ ↦ rfl) h
  | directoryLookup tenant name size =>
    exact strict_lookupRequest.readsBackIff.tagged (C := fun p ↦ Request.directoryLookup p.1 p.2.1 p.2.2)
      (a := (tenant, name, size))
      (fun _ _ h ↦ ext_of_triple (Request.directoryLookup.inj h)) decodeRequestBody (fun _ ↦ rfl) h
  | directoryRecords start count =>
    exact readsBackIff_recordsRequest.tagged (C := fun p ↦ Request.directoryRecords p.1 p.2)
      (a := (start, count))
      (fun _ _ h ↦ Prod.ext_iff.mpr (Request.directoryRecords.inj h)) decodeRequestBody (fun _ ↦ rfl) h
  | control _ =>
    exact ReadsBackIff.tagged strict_opaqueBody.readsBackIff (fun _ _ ↦ Request.control.inj)
      decodeRequestBody (fun _ ↦ rfl) h
  | binding =>
    exact strict_noBody.readsBackIff.tagged (C := fun _ ↦ Request.binding)
      (a := ()) (fun _ _ _ ↦ rfl) decodeRequestBody (fun _ ↦ rfl) h
  | replicaPush _ =>
    exact ReadsBackIff.tagged strict_opaqueBody.readsBackIff (fun _ _ ↦ Request.replicaPush.inj)
      decodeRequestBody (fun _ ↦ rfl) h
  | putGrant _ =>
    exact ReadsBackIff.tagged strict_opaqueBody.readsBackIff (fun _ _ ↦ Request.putGrant.inj)
      decodeRequestBody (fun _ ↦ rfl) h
  | putDelegation _ =>
    exact ReadsBackIff.tagged strict_opaqueBody.readsBackIff (fun _ _ ↦ Request.putDelegation.inj)
      decodeRequestBody (fun _ ↦ rfl) h
  | fetchChain _ =>
    exact ReadsBackIff.tagged (strict_exact 32).readsBackIff (fun _ _ ↦ Request.fetchChain.inj)
      decodeRequestBody (fun _ ↦ rfl) h
  | putActionGrant _ =>
    exact ReadsBackIff.tagged strict_opaqueBody.readsBackIff (fun _ _ ↦ Request.putActionGrant.inj)
      decodeRequestBody (fun _ ↦ rfl) h
  | requestAction _ =>
    exact ReadsBackIff.tagged strict_opaqueBody.readsBackIff (fun _ _ ↦ Request.requestAction.inj)
      decodeRequestBody (fun _ ↦ rfl) h
  | reportAction seq ok digest =>
    exact strict_report.readsBackIff.tagged (C := fun p ↦ Request.reportAction p.1 p.2.1 p.2.2)
      (a := (seq, ok, digest))
      (fun _ _ h ↦ ext_of_triple (Request.reportAction.inj h)) decodeRequestBody (fun _ ↦ rfl) h
  | actionRequests _ =>
    exact ReadsBackIff.tagged (strict_exact 16).readsBackIff (fun _ _ ↦ Request.actionRequests.inj)
      decodeRequestBody (fun _ ↦ rfl) h
  | decideAction _ =>
    exact ReadsBackIff.tagged strict_opaqueBody.readsBackIff (fun _ _ ↦ Request.decideAction.inj)
      decodeRequestBody (fun _ ↦ rfl) h

/-! ### Messages of the server -/

/-- A body that is handed on as it is. -/
theorem readsBackIff_raw :
    ReadsBackIff (fun bytes : List UInt8 ↦ (.ok bytes : Except FormatError (List UInt8)))
      (fun bytes ↦ .ok bytes) fun _ ↦ True :=
  fun _ _ h ↦ iff_true_intro (congrArg Except.ok (Except.ok.inj h).symm)

theorem readsBackIff_notice : ReadsBackIff (fun n ↦ .ok (encodeNotice n)) decodeNotice fun _ ↦ True :=
  fun n _ h ↦ iff_true_intro (Except.ok.inj h ▸ decodeNotice_encodeNotice n)

theorem readsBackIff_endorsed :
    ReadsBackIff (fun p : UInt8 × UInt8 ↦ .ok [p.1, p.2]) decodeEndorsed fun _ ↦ True :=
  fun _ _ h ↦ iff_true_intro (Except.ok.inj h ▸ rfl)

/-- A credential is its own body, checked on both sides. -/
theorem decodeResponseBody_attestCredential (sha : Sha2) {bytes body : List UInt8} {kind : UInt8}
    (h : responseParts (.attestCredential bytes) = .ok (kind, body)) :
    decodeResponseBody sha kind body = .ok (.attestCredential bytes) := by
  obtain ⟨u, hcheck, hpair⟩ := Except.map_eq_ok_iff.mp h
  obtain ⟨rfl, rfl⟩ := Prod.mk.inj hpair
  exact Except.map_eq_ok_iff.mpr ⟨u, hcheck, rfl⟩

/-- The codecs of the answers, which are those of their documents. -/
theorem strict_view : Strict View.encode View.decode := fun _ _ ↦ View.decode_eq_ok_iff

/-- A lookup without a record is not read back. -/
theorem readsBackIff_lookup :
    ReadsBackIff Directory.Lookup.encode Directory.Lookup.decode fun lookup ↦ lookup.record ≠ [] := by
  intro lookup bytes h
  rw [Directory.Lookup.decode_eq_ok_iff]
  exact and_iff_left h

/-- A page is read back if every entry of it is a record of the directory. -/
theorem readsBackIff_page (sha : Sha2) :
    ReadsBackIff Directory.encodePage (Directory.decodePage sha)
      fun records ↦ ∀ record ∈ records, Directory.IsRecord sha record := by
  intro records bytes h
  rw [Directory.decodePage_eq_ok_iff]
  exact and_iff_left h

/-- A reply with a chain is read back unless it carries an empty grant. -/
theorem readsBackIff_chainReply :
    ReadsBackIff (fun p : List UInt8 × Option Digest × Option (List UInt8) ↦ encodeChainReply p.1 p.2.1 p.2.2)
      decodeChainReply fun p ↦ p.2.2 ≠ some [] :=
  fun _ _ ↦ decodeChainReply_encodeChainReply_iff

/-- The text of a refused action was checked when it was written. -/
theorem decodeResponseBody_actionRefused (sha : Sha2) {why : String} {body : List UInt8} {kind : UInt8}
    (h : responseParts (.actionRefused why) = .ok (kind, body)) :
    decodeResponseBody sha kind body = .ok (.actionRefused why) := by
  obtain ⟨u, hcheck, hpair⟩ := Except.map_eq_ok_iff.mp h
  obtain ⟨rfl, rfl⟩ := Prod.mk.inj hpair
  exact Except.map_eq_ok_iff.mpr ⟨why, decodeRefusal_eq_ok_iff.mpr ⟨hcheck, rfl⟩, rfl⟩

/-- **Which server messages are read back.** These are the checks that only the reader makes. -/
def Response.Readable (sha : Sha2) : Response → Prop
  | .granted grant => grant.size ≤ maxDocument
  | .denied deny => deny.size ≤ maxDocument
  | .attested basis => basis = Attestation.Basis.vendorCertificate ∨ basis = Attestation.Basis.enrolledEk
  | .directoryEntry lookup => lookup.record ≠ []
  | .directoryRecords records => ∀ record ∈ records, Directory.IsRecord sha record
  | .chain _ _ actionGrant => actionGrant ≠ some []
  | _ => True

/-- An answer is its kind and its body. -/
theorem encodeResponse_eq_ok_iff {response : Response} {message : List UInt8} :
    encodeResponse response = .ok message ↔
      ∃ kind body, responseParts response = .ok (kind, body) ∧ message = kind :: body := by
  simp only [encodeResponse, Except.bind_eq_ok_iff, Prod.exists, Except.ok.injEq, eq_comm (b := message)]

/-- The body that is written for a message is read back as the reader of its kind allows. -/
theorem decodeResponseBody_eq_ok_iff (sha : Sha2) {response : Response} {kind : UInt8} {body : List UInt8}
    (h : responseParts response = .ok (kind, body)) :
    decodeResponseBody sha kind body = .ok response ↔ response.Readable sha := by
  cases response with
  | challenge _ =>
    exact ReadsBackIff.tagged (fun _ _ h ↦ iff_true_intro (decodeChallenge_encodeChallenge h))
      (fun _ _ ↦ Response.challenge.inj)
      (decodeResponseBody sha) (fun _ ↦ rfl) h
  | proven =>
    exact strict_noBody.readsBackIff.tagged (C := fun _ ↦ Response.proven)
      (a := ()) (fun _ _ _ ↦ rfl) (decodeResponseBody sha) (fun _ ↦ rfl) h
  | granted _ =>
    exact ReadsBackIff.tagged (fun _ _ ↦ decodeGrant_encodeGrant_iff) (fun _ _ ↦ Response.granted.inj)
      (decodeResponseBody sha) (fun _ ↦ rfl) h
  | denied _ =>
    exact ReadsBackIff.tagged (fun _ _ ↦ decodeDeny_encodeDeny_iff) (fun _ _ ↦ Response.denied.inj)
      (decodeResponseBody sha) (fun _ ↦ rfl) h
  | asked _ =>
    exact ReadsBackIff.tagged strict_exactLe.readsBackIff (fun _ _ ↦ Response.asked.inj)
      (decodeResponseBody sha) (fun _ ↦ rfl) h
  | queue _ =>
    exact ReadsBackIff.tagged readsBackIff_raw (fun _ _ ↦ Response.queue.inj)
      (decodeResponseBody sha) (fun _ ↦ rfl) h
  | decided _ =>
    exact ReadsBackIff.tagged strict_opaqueBody.readsBackIff (fun _ _ ↦ Response.decided.inj)
      (decodeResponseBody sha) (fun _ ↦ rfl) h
  | waiting =>
    exact strict_noBody.readsBackIff.tagged (C := fun _ ↦ Response.waiting)
      (a := ()) (fun _ _ _ ↦ rfl) (decodeResponseBody sha) (fun _ ↦ rfl) h
  | accepted =>
    exact strict_noBody.readsBackIff.tagged (C := fun _ ↦ Response.accepted)
      (a := ()) (fun _ _ _ ↦ rfl) (decodeResponseBody sha) (fun _ ↦ rfl) h
  | notice _ =>
    exact ReadsBackIff.tagged readsBackIff_notice (fun _ _ ↦ Response.notice.inj)
      (decodeResponseBody sha) (fun _ ↦ rfl) h
  | revocation _ =>
    exact ReadsBackIff.tagged strict_opaqueBody.readsBackIff (fun _ _ ↦ Response.revocation.inj)
      (decodeResponseBody sha) (fun _ ↦ rfl) h
  | notRevoked =>
    exact strict_noBody.readsBackIff.tagged (C := fun _ ↦ Response.notRevoked)
      (a := ()) (fun _ _ _ ↦ rfl) (decodeResponseBody sha) (fun _ ↦ rfl) h
  | standing _ =>
    exact ReadsBackIff.tagged strict_opaqueBody.readsBackIff (fun _ _ ↦ Response.standing.inj)
      (decodeResponseBody sha) (fun _ ↦ rfl) h
  | endorsed have_ need =>
    exact readsBackIff_endorsed.tagged (C := fun p ↦ Response.endorsed p.1 p.2) (a := (have_, need))
      (fun _ _ h ↦ Prod.ext_iff.mpr (Response.endorsed.inj h)) (decodeResponseBody sha) (fun _ ↦ rfl) h
  | attestNonce _ =>
    exact ReadsBackIff.tagged (strict_exact _).readsBackIff (fun _ _ ↦ Response.attestNonce.inj)
      (decodeResponseBody sha) (fun _ ↦ rfl) h
  | attestCredential _ =>
    exact iff_true_intro (decodeResponseBody_attestCredential sha h)
  | attested _ =>
    exact ReadsBackIff.tagged readsBackIff_attested (fun _ _ ↦ Response.attested.inj)
      (decodeResponseBody sha) (fun _ ↦ rfl) h
  | logView _ =>
    exact ReadsBackIff.tagged strict_view.readsBackIff (fun _ _ ↦ Response.logView.inj)
      (decodeResponseBody sha) (fun _ ↦ rfl) h
  | directoryEntry _ =>
    exact ReadsBackIff.tagged readsBackIff_lookup (fun _ _ ↦ Response.directoryEntry.inj)
      (decodeResponseBody sha) (fun _ ↦ rfl) h
  | directoryRecords _ =>
    exact ReadsBackIff.tagged (readsBackIff_page sha) (fun _ _ ↦ Response.directoryRecords.inj)
      (decodeResponseBody sha) (fun _ ↦ rfl) h
  | receipt _ =>
    exact ReadsBackIff.tagged strict_opaqueBody.readsBackIff (fun _ _ ↦ Response.receipt.inj)
      (decodeResponseBody sha) (fun _ ↦ rfl) h
  | binding _ =>
    exact ReadsBackIff.tagged strict_opaqueBody.readsBackIff (fun _ _ ↦ Response.binding.inj)
      (decodeResponseBody sha) (fun _ ↦ rfl) h
  | replicaAck _ =>
    exact ReadsBackIff.tagged strict_opaqueBody.readsBackIff (fun _ _ ↦ Response.replicaAck.inj)
      (decodeResponseBody sha) (fun _ ↦ rfl) h
  | chainStored =>
    exact strict_noBody.readsBackIff.tagged (C := fun _ ↦ Response.chainStored)
      (a := ()) (fun _ _ _ ↦ rfl) (decodeResponseBody sha) (fun _ ↦ rfl) h
  | chain documents leaseVerifyKey actionGrant =>
    exact readsBackIff_chainReply.tagged (C := fun p ↦ Response.chain p.1 p.2.1 p.2.2)
      (a := (documents, leaseVerifyKey, actionGrant))
      (fun _ _ h ↦ ext_of_triple (Response.chain.inj h)) (decodeResponseBody sha) (fun _ ↦ rfl) h
  | noChain =>
    exact strict_noBody.readsBackIff.tagged (C := fun _ ↦ Response.noChain)
      (a := ()) (fun _ _ _ ↦ rfl) (decodeResponseBody sha) (fun _ ↦ rfl) h
  | actionGranted _ =>
    exact ReadsBackIff.tagged strict_opaqueBody.readsBackIff (fun _ _ ↦ Response.actionGranted.inj)
      (decodeResponseBody sha) (fun _ ↦ rfl) h
  | actionPending _ =>
    exact ReadsBackIff.tagged strict_exactLe.readsBackIff (fun _ _ ↦ Response.actionPending.inj)
      (decodeResponseBody sha) (fun _ ↦ rfl) h
  | actionRefused _ =>
    exact iff_true_intro (decodeResponseBody_actionRefused sha h)
  | actionQueue _ =>
    exact ReadsBackIff.tagged readsBackIff_raw (fun _ _ ↦ Response.actionQueue.inj)
      (decodeResponseBody sha) (fun _ ↦ rfl) h

/-! ### The law of the envelope -/

/-- **What is written is read back.** A message that its writer accepts is read back by its reader if and
only if it passes the checks that only the reader makes. -/
theorem encodeMessage_readable_iff (sha : Sha2) :
    (∀ request message, encodeRequest request = .ok message →
      (decodeRequest message = .ok request ↔ request.Readable)) ∧
    ∀ response message, encodeResponse response = .ok message →
      (decodeResponse sha message = .ok response ↔ response.Readable sha) := by
  refine ⟨fun request message h ↦ ?_, fun response message h ↦ ?_⟩
  · obtain ⟨kind, body, hparts, rfl⟩ := encodeRequest_eq_ok_iff.mp h
    exact decodeRequestBody_eq_ok_iff hparts
  · obtain ⟨kind, body, hparts, rfl⟩ := encodeResponse_eq_ok_iff.mp h
    exact decodeResponseBody_eq_ok_iff sha hparts

/-- A page of three records is asked for, and an attestation is accepted on an enrolled key. -/
theorem encodeMessage_readable_iff_page :
    decodeRequest (43 :: recordsRequest 5 3) = .ok (.directoryRecords 5 3) ∧
      decodeResponse Directory.constantSha [36, 2] = .ok (.attested 2) :=
  ⟨((encodeMessage_readable_iff Directory.constantSha).1 (.directoryRecords 5 3) _ rfl).mpr
      (show (3 : UInt32) ≠ 0 ∧ _ ≤ Directory.maxPage by decide),
    ((encodeMessage_readable_iff Directory.constantSha).2 (.attested 2) _ rfl).mpr (.inr rfl)⟩

/-- A question for a page of no records, a proof of no bytes and an attestation on no basis are written, and
no reader accepts them. -/
theorem unreadable_messages_written :
    (∃ message, encodeRequest (.directoryRecords 0 0) = .ok message ∧
      decodeRequest message ≠ .ok (.directoryRecords 0 0)) ∧
    (∃ message, encodeRequest (.prove ⟨[]⟩) = .ok message ∧ decodeRequest message ≠ .ok (.prove ⟨[]⟩)) ∧
    ∃ message, encodeResponse (.attested 0) = .ok message ∧
      ∀ sha, decodeResponse sha message ≠ .ok (.attested 0) := by
  refine ⟨⟨43 :: recordsRequest 0 0, rfl, ?_⟩, ?_, [36, 0], rfl, fun sha ↦ nofun⟩
  · decide
  · refine ⟨2 :: encodeContents [(ProofTag.echo, [])], ?_, ?_⟩
    · decide +kernel
    · decide +kernel

end OpenCrate.Protocol.Activation
