import OpenCrate.Protocol.Order

/-!
# Orders are written and read alike

An order is written exactly if it fits its kind (`Order.check`), and what is read fits. What was written
is read back with the profiles of its rule in normal form, and what was read can be written again.
-/

namespace OpenCrate.Protocol.Order

open OpenCrate.Format OpenCrate.Crypto
open Except (refuseIf okOr)

/-! ### What fits -/

/-- A part is there exactly if the kind of the order wants it. -/
@[simp] theorem required_eq_ok_iff {present wanted : Bool} {tag : UInt16} :
    required present wanted tag = .ok () ↔ (present = true ↔ wanted = true) := by
  cases present <;> cases wanted <;> simp [required]

/-- A part is there only if it is allowed. -/
@[simp] theorem onlyIf_eq_ok_iff {present allowed : Bool} {tag : UInt16} :
    onlyIf present allowed tag = .ok () ↔ (present = true → allowed = true) := by
  simp [onlyIf]

/-- A roster without repetitions and a threshold that it can reach. -/
structure Quorum (keys : List Digest) (threshold : UInt8) : Prop where
  short : keys.length ≤ maxKeys
  nodup : keys.Nodup
  reachable : keys = [] ∧ threshold = 0 ∨ 1 ≤ threshold.toNat ∧ threshold.toNat ≤ keys.length

/-- **The check of a roster**: its keys are different, and the threshold can be reached. -/
theorem checkRoster_eq_ok_iff {keys : List Digest} {threshold : UInt8} :
    checkRoster keys threshold = .ok () ↔ Quorum keys threshold := by
  simp only [checkRoster, Except.check_bind_eq_ok_iff, Except.refuseIf_eq_ok_iff, not_lt, not_not]
  constructor
  · rintro ⟨hshort, hnodup, hreach⟩
    refine ⟨hshort, hnodup, ?_⟩
    split_ifs at hreach with hnil
    · exact .inl ⟨hnil, UInt8.toNat_inj.mp hreach⟩
    · exact .inr hreach
  · rintro ⟨hshort, hnodup, hreach⟩
    refine ⟨hshort, hnodup, ?_⟩
    split_ifs with hnil
    · rcases hreach with ⟨-, rfl⟩ | ⟨hone, hle⟩
      · rfl
      · rw [hnil, List.length_nil] at hle
        omega
    · exact hreach.resolve_left fun h ↦ hnil h.1

/-- The names of one device. -/
structure Names (names : List Digest) : Prop where
  some_ : names ≠ []
  short : names.length ≤ maxDeviceNames
  nonzero : List.Vector.replicate 32 0 ∉ names
  nodup : names.Nodup

/-- **The check of a list of names.** -/
theorem checkNames_eq_ok_iff {names : List Digest} {tag : UInt16} :
    checkNames names tag = .ok () ↔ Names names := by
  simp only [checkNames, Except.check_bind_eq_ok_iff, Except.refuseIf_eq_ok_iff, not_or, not_lt,
    not_not]
  exact ⟨fun ⟨⟨hsome, hshort⟩, hnonzero, hnodup⟩ ↦ ⟨hsome, hshort, hnonzero, hnodup⟩,
    fun ⟨hsome, hshort, hnonzero, hnodup⟩ ↦ ⟨⟨hsome, hshort⟩, hnonzero, hnodup⟩⟩

/-- A decision that opens a file for an heir. -/
structure Opens (fileId : List.Vector UInt8 16) (decision : Access.Decision) : Prop where
  file : decision.fileId = fileId
  heir : decision.seq = Access.heirSeq
  approve : decision.approve = true
  share : decision.shareB.isSome = true

/-- Bequests: decisions about one file, each for another device. -/
structure Bequests (fileId : List.Vector UInt8 16) (all : List (List UInt8)) : Prop where
  some_ : all ≠ []
  short : all.length ≤ maxHeirs
  decisions : ∃ decisions, List.Forall₂ (fun bytes decision ↦
      Access.decodeDecision bytes = .ok decision) all decisions ∧
    (∀ decision ∈ decisions, Opens fileId decision) ∧
    (decisions.map Access.Decision.deviceFpr).Nodup

/-- The devices of bequests are collected, and none is met twice. -/
theorem foldlM_checkBequest_eq_ok_iff {fileId : List.Vector UInt8 16} {all : List (List UInt8)}
    {seen seen' : List Digest} (hseen : seen.Nodup) :
    all.foldlM (checkBequest fileId) seen = .ok seen' ↔
      ∃ decisions, List.Forall₂ (fun bytes decision ↦
          Access.decodeDecision bytes = .ok decision) all decisions ∧
        (∀ decision ∈ decisions, Opens fileId decision) ∧
        (seen ++ decisions.map Access.Decision.deviceFpr).Nodup ∧
        seen' = seen ++ decisions.map Access.Decision.deviceFpr := by
  -- by induction on the bequests; the devices seen so far stay distinct
  induction all generalizing seen with
  | nil =>
    rw [Except.foldlM_nil, Except.ok.injEq]
    constructor
    · rintro rfl
      exact ⟨[], .nil, nofun, by simpa using hseen, (List.append_nil _).symm⟩
    · rintro ⟨decisions, hall, -, -, rfl⟩
      cases hall
      exact (List.append_nil _).symm
  | cons bytes all ih =>
    simp only [List.foldlM_cons, checkBequest, Except.bind_eq_ok_iff, Except.refuseIf_eq_ok_iff,
      not_not]
    constructor
    · rintro ⟨seen₁, ⟨decision, hdecision, ⟨⟩, ⟨hfile, hheir, happrove, hshare⟩, ⟨⟩, hnew, hok⟩, h⟩
      obtain rfl := Except.ok.inj hok
      have hseen₁ : (seen ++ [decision.deviceFpr]).Nodup :=
        List.concat_eq_append ▸ hseen.concat hnew
      obtain ⟨decisions, hall, hopens, hnodup, rfl⟩ := (ih hseen₁).mp h
      rw [List.append_assoc] at hnodup
      exact ⟨decision :: decisions, .cons hdecision hall,
        List.forall_mem_cons.mpr ⟨⟨hfile, hheir, happrove, hshare⟩, hopens⟩, hnodup,
        List.append_assoc _ _ _⟩
    · rintro ⟨decisions, hall, hopens, hnodup, rfl⟩
      obtain - | ⟨hdecision, hall⟩ := hall
      obtain ⟨⟨hfile, hheir, happrove, hshare⟩, hopens⟩ := List.forall_mem_cons.mp hopens
      rw [List.map_cons, List.append_cons] at hnodup
      have hnew := hnodup.of_append_left
      refine ⟨_, ⟨_, hdecision, (), ⟨hfile, hheir, happrove, hshare⟩, (), ?_, rfl⟩,
        (ih hnew).mpr ⟨_, hall, hopens, hnodup, ?_⟩⟩
      · exact fun hmem ↦ List.disjoint_of_nodup_append hnew hmem (List.mem_singleton_self _)
      · rw [List.append_assoc]
        rfl

/-- **The check of the bequests**: each of them is of this file. -/
theorem checkBequests_eq_ok_iff {all : List (List UInt8)} {fileId : List.Vector UInt8 16} :
    checkBequests all fileId = .ok () ↔ Bequests fileId all := by
  simp only [checkBequests, Except.bind_eq_ok_iff, Except.refuseIf_eq_ok_iff,
    foldlM_checkBequest_eq_ok_iff List.nodup_nil, List.nil_append, not_or, not_lt]
  constructor
  · rintro ⟨⟨⟩, ⟨hsome, hshort⟩, _, ⟨decisions, hall, hopens, hnodup, -⟩, -⟩
    exact ⟨hsome, hshort, decisions, hall, hopens, hnodup⟩
  · rintro ⟨hsome, hshort, decisions, hall, hopens, hnodup⟩
    exact ⟨(), ⟨hsome, hshort⟩, _, ⟨decisions, hall, hopens, hnodup, rfl⟩, trivial⟩

/-- **The fields of an order fit its kind.** -/
structure Fits (order : Order) : Prop where
  maxDevices : order.maxDevices.isSome → order.kind = .register ∨ order.kind = .setLimits
  maxGrants : order.maxGrants.isSome → order.kind = .register ∨ order.kind = .setLimits
  someLimit : order.kind = .setLimits → order.maxDevices.isSome ∨ order.maxGrants.isSome
  keys : order.keys.isSome ↔ order.kind = .setCoauthors ∨ order.kind = .setApprovers
  threshold : order.threshold.isSome ↔ order.kind = .setCoauthors ∨ order.kind = .setApprovers
  quorum : ∀ keys ∈ order.keys, ∀ threshold ∈ order.threshold, Quorum keys threshold
  deviceFpr : order.deviceFpr.isSome ↔ order.kind = .approveDevice
  approve : order.approve.isSome ↔ order.kind = .approveDevice
  heirMode : order.heirMode.isSome ↔ order.kind = .setHeir
  silenceSeconds : order.silenceSeconds.isSome ↔
    order.heirMode = some .open_ ∨ order.heirMode = some .close
  bequests : order.bequests.isSome ↔ order.heirMode = some .open_
  heirs : ∀ all ∈ order.bequests, Bequests order.fileId all
  proposalTtl : order.proposalTtl.isSome → order.kind = .setCoauthors
  nonzeroTtl : order.proposalTtl ≠ some 0
  frozen : order.frozen.isSome ↔ order.kind = .freeze
  authorityKey : order.authorityKey.isSome ↔ order.kind = .watchAuthor
  grantId : order.grantId.isSome ↔ order.kind = .revokeGrant
  noFile : order.kind = .freeze ∨ order.kind = .watchAuthor ∨ order.kind = .revokeGrant →
    order.fileId = noFile
  signerKey : order.signerKey.isSome ↔
    (order.kind = .alive ∧ order.fileId = Order.noFile) ∨ order.kind = .approveDevice ∨
      order.kind = .freeze ∨ order.kind = .watchAuthor ∨ order.kind = .revokeGrant
  oldDevices : order.oldDevices.isSome ↔ order.kind = .replaceDevice
  newDevices : order.newDevices.isSome ↔ order.kind = .replaceDevice
  names : ∀ old ∈ order.oldDevices, ∀ new ∈ order.newDevices,
    Names old ∧ Names new ∧ old.Disjoint new
  rule : order.rule.isSome ↔ order.kind = .setRule
  ownFile : order.kind = .replaceDevice ∨ order.kind = .setRule → order.fileId ≠ Order.noFile

/-- A roster is checked if there is one. -/
theorem checkRosterOpt_eq_ok_iff {order : Order} :
    order.checkRosterOpt = .ok () ↔
      ∀ keys ∈ order.keys, ∀ threshold ∈ order.threshold, Quorum keys threshold := by
  rw [checkRosterOpt]
  cases order.keys <;> cases order.threshold <;> simp [checkRoster_eq_ok_iff]

theorem checkBequestsOpt_eq_ok_iff {order : Order} :
    order.checkBequestsOpt = .ok () ↔ ∀ all ∈ order.bequests, Bequests order.fileId all := by
  rw [checkBequestsOpt]
  cases order.bequests <;> simp [checkBequests_eq_ok_iff]

/-- What is replaced and what replaces it are different devices. -/
theorem checkReplacement_eq_ok_iff {order : Order} :
    order.checkReplacement = .ok () ↔ ∀ old ∈ order.oldDevices, ∀ new ∈ order.newDevices,
      Names old ∧ Names new ∧ old.Disjoint new := by
  rw [checkReplacement]
  cases order.oldDevices <;> cases order.newDevices <;>
    simp [Except.check_bind_eq_ok_iff, checkNames_eq_ok_iff, List.Disjoint]

/-- **The check accepts exactly what fits.** -/
theorem check_eq_ok_iff {order : Order} : order.check = .ok () ↔ order.Fits := by
  simp only [check, Except.check_bind_eq_ok_iff, onlyIf_eq_ok_iff, required_eq_ok_iff,
    Except.refuseIf_eq_ok_iff, checkRosterOpt_eq_ok_iff, checkBequestsOpt_eq_ok_iff,
    checkReplacement_eq_ok_iff, Bool.or_eq_true, Bool.and_eq_true, beq_iff_eq, decide_eq_true_eq]
  constructor
  · rintro ⟨hdevices, hgrants, hlimit, hkeys, hthreshold, hquorum, hfpr, happrove, hheir, hsilence,
      hbequests, httl, hnonzero, hfrozen, hfreezeFile, hauthority, hwatchFile, hgrant, hgrantFile,
      hsigner, hheirs, hold, hnew, hreplaceFile, hnames, hrule, hruleFile⟩
    -- one of the two limits is enough
    have hlimit' : order.kind = .setLimits → order.maxDevices.isSome ∨ order.maxGrants.isSome := by
      rw [Option.isSome_iff_ne_none, Option.isSome_iff_ne_none, ← not_and_or]
      exact fun hkind h ↦ hlimit ⟨hkind, h⟩
    refine ⟨hdevices, hgrants, hlimit', hkeys, hthreshold, hquorum, hfpr, happrove, hheir,
      hsilence, hbequests, hheirs, httl, hnonzero, hfrozen, hauthority, hgrant, ?_, ?_, hold, hnew,
      hnames, hrule, ?_⟩
    · rintro (hkind | hkind | hkind)
      · exact not_not.mp fun h ↦ hfreezeFile ⟨hkind, h⟩
      · exact not_not.mp fun h ↦ hwatchFile ⟨hkind, h⟩
      · exact not_not.mp fun h ↦ hgrantFile ⟨hkind, h⟩
    · rw [hsigner, or_assoc, or_assoc, or_assoc]
    · rintro (hkind | hkind) hfile
      · exact hreplaceFile ⟨hkind, hfile⟩
      · exact hruleFile ⟨hkind, hfile⟩
  · intro h
    refine ⟨h.maxDevices, h.maxGrants, ?_, h.keys, h.threshold, h.quorum, h.deviceFpr, h.approve,
      h.heirMode, h.silenceSeconds, h.bequests, h.proposalTtl, h.nonzeroTtl, h.frozen,
      fun ⟨hkind, hfile⟩ ↦ hfile (h.noFile (.inl hkind)), h.authorityKey,
      fun ⟨hkind, hfile⟩ ↦ hfile (h.noFile (.inr (.inl hkind))), h.grantId,
      fun ⟨hkind, hfile⟩ ↦ hfile (h.noFile (.inr (.inr hkind))), ?_, h.heirs, h.oldDevices,
      h.newDevices, fun ⟨hkind, hfile⟩ ↦ h.ownFile (.inl hkind) hfile, h.names, h.rule,
      fun ⟨hkind, hfile⟩ ↦ h.ownFile (.inr hkind) hfile⟩
    · rintro ⟨hkind, hdevices, hgrants⟩
      have hsome := h.someLimit hkind
      rw [hdevices, hgrants] at hsome
      simp at hsome
    · rw [h.signerKey, or_assoc, or_assoc, or_assoc]

/-! ### The fields of an order -/

/-- The fields every order has. -/
def commonContents (order : Order) : Contents :=
  [(Tag.version, toLeBytes orderVersion), (Tag.fileId, order.fileId.toList),
    (Tag.kind, [order.kind.toU8]), (Tag.at_, toLeBytes order.at_)]

/-- The limits of a file, its roster, and a vote on a device. -/
def rosterContents (order : Order) : Contents :=
  optField Tag.maxDevices (order.maxDevices.map toLeBytes) ++
  (optField Tag.maxGrants (order.maxGrants.map toLeBytes) ++
  (optField Tag.keys (order.keys.map flat) ++
  (optField Tag.threshold (order.threshold.map fun n ↦ [n]) ++
  (optField Tag.deviceFpr (order.deviceFpr.map List.Vector.toList) ++
  optField Tag.approve (order.approve.map fun b ↦ [b.toUInt8])))))

/-- The heirs of a file, given the bytes of the bequests, and what concerns all files of a key. -/
def heirContents (order : Order) (bequests : Option (List UInt8)) : Contents :=
  optField Tag.silenceSeconds (order.silenceSeconds.map toLeBytes) ++
  (optField Tag.heirMode (order.heirMode.map fun mode ↦ [mode.toU8]) ++
  (optField Tag.bequest bequests ++
  (optField Tag.signerKey (order.signerKey.map List.Vector.toList) ++
  (optField Tag.proposalTtl (order.proposalTtl.map toLeBytes) ++
  optField Tag.frozen (order.frozen.map fun b ↦ [b.toUInt8])))))

/-- A replacement, a rule, given its bytes, and the objects of the last two kinds. -/
def ruleContents (order : Order) (rule : Option (List UInt8)) : Contents :=
  optField Tag.oldDevices (order.oldDevices.map flat) ++
  (optField Tag.newDevices (order.newDevices.map flat) ++
  (optField Tag.rule rule ++
  (optField Tag.authorityKey (order.authorityKey.map List.Vector.toList) ++
  optField Tag.grantId (order.grantId.map List.Vector.toList))))

/-- The tags and values of an order, given the bytes of the bequests and of the rule. -/
def contents (order : Order) (bequests rule : Option (List UInt8)) : Contents :=
  order.commonContents ++ (order.rosterContents ++ (order.heirContents bequests ++
    order.ruleContents rule))

/-- An order is its records, if it passes its checks. -/
theorem encode_eq_ok_iff {order : Order} {bytes : List UInt8} :
    order.encode = .ok bytes ↔ order.check = .ok () ∧
      ∃ bequests, encodeBequests order.bequests = .ok bequests ∧
        ∃ rule, encodeRule order.rule = .ok rule ∧ Encodes bytes (order.contents bequests rule) := by
  simp only [encode, Except.check_bind_eq_ok_iff, TlvWriter.new_put_bind,
    TlvWriter.putMany_put_bind, TlvWriter.putMany_putOpt_bind, TlvWriter.putMany_bind_eq_ok_iff,
    TlvWriter.putMany_finish_eq_ok_iff, contents, commonContents, rosterContents, heirContents,
    ruleContents, List.cons_append, List.nil_append, List.append_assoc]

/-- The tags of an order. -/
def tags : List UInt16 :=
  [1, 2, 3, 4, 5, 6, 7, 8, 9, 10, 11, 12, 13, 14, 15, 16, 17, 18, 19, 20, 21]

theorem recordStep_decodeStep : RecordStep tags decodeStep where
  span_free _ _ _ _ _ := rfl
  skips acc tag value span h := by
    unfold decodeStep
    split <;> first | rfl | simp_all [tags]

/-! ### Written and read back -/

/-- What an order is read back as. -/
def normal (order : Order) : Order :=
  { order with rule := order.rule.map AttributeRule.Rule.normal }

/-- The slots of the fields every order has. -/
def Reading.common (order : Order) : Reading where
  version := some orderVersion
  fileId := some order.fileId
  kind := some order.kind
  at_ := some order.at_

/-- The slots up to those of the roster and the vote. -/
def Reading.withRoster (order : Order) : Reading :=
  { Reading.common order with
    maxDevices := order.maxDevices
    maxGrants := order.maxGrants
    keys := order.keys
    threshold := order.threshold
    deviceFpr := order.deviceFpr
    approve := order.approve }

/-- The slots up to those of the heirs. -/
def Reading.withHeir (order : Order) : Reading :=
  { Reading.withRoster order with
    silenceSeconds := order.silenceSeconds
    heirMode := order.heirMode
    bequests := order.bequests
    signerKey := order.signerKey
    proposalTtl := order.proposalTtl
    frozen := order.frozen }

/-- The slots of an order. -/
def Reading.of (order : Order) : Reading :=
  { Reading.withHeir order with
    oldDevices := order.oldDevices
    newDevices := order.newDevices
    rule := order.rule
    authorityKey := order.authorityKey
    grantId := order.grantId }

/-- The loop over the records that every order has. -/
theorem foldlM_commonContents (order : Order) :
    order.commonContents.foldlM (readField decodeStep) {} = .ok (Reading.common order) := by
  simp [commonContents, readField, decodeStep, Tag.version, Tag.fileId, Tag.kind, Tag.at_,
    Reading.common]

/-- Keys are split as they were written. -/
theorem splitKeys_flat {keys : List Digest} (h : keys.length ≤ maxKeys) :
    splitKeys (flat keys) = .ok keys := by
  have hlength : (flat keys).length = keys.length * 32 := length_flatMap_toList keys
  have hchunks : chunksExact? 32 (flat keys) = some keys :=
    (chunksExact?_eq_some_iff (by decide)).mpr rfl
  rw [maxKeys] at h
  simp only [splitKeys, Except.check_bind_eq_ok_iff, Except.refuseIf_eq_ok_iff, Except.okOr_eq_ok_iff]
  exact ⟨by rw [hlength, maxKeys]; omega, hchunks⟩

theorem splitNames_flat {names : List Digest} {tag : UInt16} (h : Names names) :
    splitNames tag (flat names) = .ok names := by
  have hlength : (flat names).length = names.length * 32 := length_flatMap_toList names
  have hchunks : chunksExact? 32 (flat names) = some names :=
    (chunksExact?_eq_some_iff (by decide)).mpr rfl
  have hpos := List.length_pos_iff.mpr h.some_
  have hshort := h.short
  rw [maxDeviceNames] at hshort
  simp only [splitNames, Except.check_bind_eq_ok_iff, Except.refuseIf_eq_ok_iff, Except.okOr_eq_ok_iff,
    ← List.length_eq_zero_iff]
  exact ⟨by rw [hlength, maxDeviceNames]; omega, hchunks⟩

/-- Bequests are split as they were written. -/
theorem splitBequests_frames {all : List (List UInt8)} (hroom : all.length ≤ maxHeirs)
    (hfits : ∀ bytes ∈ all, bytes.length < 2 ^ 32) : splitBequests (frames all) = .ok all :=
  unframe_eq_ok_iff.mpr ⟨all, rfl, hroom, hfits, rfl⟩

theorem flag_toUInt8 (tag : UInt16) (b : Bool) (span : Span) :
    flag ⟨tag, [b.toUInt8], span⟩ = .ok b := by
  cases b <;> rfl

/-- A roster comes with a threshold. -/
theorem Fits.exists_quorum {order : Order} (h : order.Fits) {keys : List Digest}
    (hkeys : order.keys = some keys) :
    ∃ threshold, order.threshold = some threshold ∧ Quorum keys threshold := by
  have hsome : order.threshold.isSome := h.threshold.mpr (h.keys.mp (hkeys ▸ rfl))
  obtain ⟨threshold, hthreshold⟩ := Option.isSome_iff_exists.mp hsome
  exact ⟨threshold, hthreshold, h.quorum keys hkeys threshold hthreshold⟩

theorem Fits.names_of_oldDevices {order : Order} (h : order.Fits) {old : List Digest}
    (hold : order.oldDevices = some old) : Names old := by
  have hsome : order.newDevices.isSome := h.newDevices.mpr (h.oldDevices.mp (hold ▸ rfl))
  obtain ⟨new, hnew⟩ := Option.isSome_iff_exists.mp hsome
  exact (h.names old hold new hnew).1

theorem Fits.names_of_newDevices {order : Order} (h : order.Fits) {new : List Digest}
    (hnew : order.newDevices = some new) : Names new := by
  have hsome : order.oldDevices.isSome := h.oldDevices.mpr (h.newDevices.mp (hnew ▸ rfl))
  obtain ⟨old, hold⟩ := Option.isSome_iff_exists.mp hsome
  exact (h.names old hold new hnew).2.1

/-- The bytes of bequests are read back. -/
theorem rel_encodeBequests {all : Option (List (List UInt8))} {bequests : Option (List UInt8)}
    (h : encodeBequests all = .ok bequests) (hroom : ∀ l ∈ all, l.length ≤ maxHeirs) :
    Option.Rel (fun bytes l ↦ splitBequests bytes = .ok l) bequests all := by
  cases all with
  | none =>
    obtain rfl := Except.ok.inj h
    exact .none
  | some l =>
    obtain ⟨bytes, hbytes, rfl⟩ := Except.map_eq_ok_iff.mp h
    obtain ⟨hfits, rfl⟩ := enframe_eq_ok_iff.mp hbytes
    exact .some (splitBequests_frames (hroom l rfl) hfits)

/-- The bytes of a rule are read back, with its profiles in normal form. -/
theorem rel_encodeRule {rule : Option AttributeRule.Rule} {bytes : Option (List UInt8)}
    (h : encodeRule rule = .ok bytes) :
    Option.Rel (fun bytes rule ↦ AttributeRule.decode bytes = .ok rule) bytes
      (rule.map AttributeRule.Rule.normal) := by
  cases rule with
  | none =>
    obtain rfl := Except.ok.inj h
    exact .none
  | some rule =>
    obtain ⟨bytes, hbytes, rfl⟩ := Except.map_eq_ok_iff.mp h
    exact .some (AttributeRule.decode_encode hbytes)

/-- The loop over the records of the roster and the devices. -/
theorem foldlM_rosterContents {order : Order} (h : order.Fits) :
    order.rosterContents.foldlM (readField decodeStep) (Reading.common order) =
      .ok (Reading.withRoster order) := by
  refine foldlM_optField_append (fun s x ↦ { s with maxDevices := x }) rfl
    (fun n _ ↦ by simp [readField, decodeStep, Tag.maxDevices]) ?_
  refine foldlM_optField_append (fun s x ↦ { s with maxGrants := x }) rfl
    (fun n _ ↦ by simp [readField, decodeStep, Tag.maxGrants]) ?_
  refine foldlM_optField_append (fun s x ↦ { s with keys := x }) rfl
    (fun n hn ↦ by simp [readField, decodeStep, Tag.keys, splitKeys_flat (h.exists_quorum hn).choose_spec.2.short]) ?_
  refine foldlM_optField_append (fun s x ↦ { s with threshold := x }) rfl
    (fun n _ ↦ by simp [readField, decodeStep, Tag.threshold]) ?_
  refine foldlM_optField_append (fun s x ↦ { s with deviceFpr := x }) rfl
    (fun n _ ↦ by simp [readField, decodeStep, Tag.deviceFpr]) ?_
  rw [← List.append_nil (optField _ _)]
  exact foldlM_optField_append (fun s x ↦ { s with approve := x }) rfl
    (fun n _ ↦ by simp [readField, decodeStep, Tag.approve, flag_toUInt8]) rfl

/-- The loop over the records of the heirs. -/
theorem foldlM_heirContents {order : Order} (h : order.Fits) {bequests : Option (List UInt8)}
    (hbequests : encodeBequests order.bequests = .ok bequests) :
    (order.heirContents bequests).foldlM (readField decodeStep) (Reading.withRoster order) =
      .ok (Reading.withHeir order) := by
  refine foldlM_optField_append (fun s x ↦ { s with silenceSeconds := x }) rfl
    (fun n _ ↦ by simp [readField, decodeStep, Tag.silenceSeconds]) ?_
  refine foldlM_optField_append (fun s x ↦ { s with heirMode := x }) rfl
    (fun n _ ↦ by simp [readField, decodeStep, Tag.heirMode]) ?_
  refine foldlM_optField_append_of_rel (fun s x ↦ { s with bequests := x }) rfl
    (rel_encodeBequests hbequests fun l hl ↦ (h.heirs l hl).short)
    (fun bytes l hl ↦ by simp [readField, decodeStep, Tag.bequest, hl]) ?_
  refine foldlM_optField_append (fun s x ↦ { s with signerKey := x }) rfl
    (fun n _ ↦ by simp [readField, decodeStep, Tag.signerKey]) ?_
  refine foldlM_optField_append (fun s x ↦ { s with proposalTtl := x }) rfl
    (fun n _ ↦ by simp [readField, decodeStep, Tag.proposalTtl]) ?_
  rw [← List.append_nil (optField _ _)]
  exact foldlM_optField_append (fun s x ↦ { s with frozen := x }) rfl
    (fun n _ ↦ by simp [readField, decodeStep, Tag.frozen, flag_toUInt8]) rfl

/-- The loop over the rule, which is read in its normal form. -/
theorem foldlM_ruleContents {order : Order} (h : order.Fits) {rule : Option (List UInt8)}
    (hrule : encodeRule order.rule = .ok rule) :
    (order.ruleContents rule).foldlM (readField decodeStep) (Reading.withHeir order) =
      .ok (Reading.of order.normal) := by
  refine foldlM_optField_append (fun s x ↦ { s with oldDevices := x }) rfl
    (fun n hn ↦ by simp [readField, decodeStep, Tag.oldDevices, splitNames_flat (h.names_of_oldDevices hn)]) ?_
  refine foldlM_optField_append (fun s x ↦ { s with newDevices := x }) rfl
    (fun n hn ↦ by simp [readField, decodeStep, Tag.newDevices, splitNames_flat (h.names_of_newDevices hn)]) ?_
  refine foldlM_optField_append_of_rel (fun s x ↦ { s with rule := x }) rfl
    (rel_encodeRule hrule)
    (fun bytes rule hrule ↦ by simp [readField, decodeStep, Tag.rule, hrule]) ?_
  refine foldlM_optField_append (fun s x ↦ { s with authorityKey := x }) rfl
    (fun n _ ↦ by simp [readField, decodeStep, Tag.authorityKey]) ?_
  rw [← List.append_nil (optField _ _)]
  exact foldlM_optField_append (fun s x ↦ { s with grantId := x }) rfl
    (fun n _ ↦ by simp [readField, decodeStep, Tag.grantId]) rfl

/-- The normal form is no matter to the check. -/
theorem check_normal (order : Order) : order.normal.check = order.check := by
  have hrule : order.normal.rule.isSome = order.rule.isSome := Option.isSome_map
  rw [check, hrule]
  rfl

/-- **A checked order is put together again from what was read.** -/
theorem Reading.order_of {order : Order} (h : order.check = .ok ()) :
    (Reading.of order).order = .ok order := by
  simp [Reading.of, Reading.withHeir, Reading.withRoster, Reading.common, Reading.order,
    Except.refuseIf_of_not, h]

/-- The slots of an order that does not fit are refused as the order is. -/
theorem Reading.order_of_error {order : Order} {e : FormatError} (h : order.check = .error e) :
    (Reading.of order).order = .error e := by
  simp [Reading.of, Reading.withHeir, Reading.withRoster, Reading.common, Reading.order,
    Except.refuseIf_of_not, h]

/-- **An order that was written is read back**, with the profiles of its rule in normal form. -/
theorem decode_encode {order : Order} {bytes : List UInt8} (h : order.encode = .ok bytes) :
    decode bytes = .ok order.normal := by
  obtain ⟨hcheck, bequests, hbequests, rule, hrule, henc⟩ := encode_eq_ok_iff.mp h
  have hfits := check_eq_ok_iff.mp hcheck
  rw [decode, recordStep_decodeStep.foldFields_eq henc, contents, List.foldlM_append,
    foldlM_commonContents, Except.ok_bind, List.foldlM_append, foldlM_rosterContents hfits, Except.ok_bind,
    List.foldlM_append, foldlM_heirContents hfits hbequests, Except.ok_bind,
    foldlM_ruleContents hfits hrule, Except.ok_bind]
  exact Reading.order_of (order.check_normal.trans hcheck)

/-- The parts of an order that must be short enough to be written. -/
structure Short (order : Order) : Prop where
  bequests : ∀ all ∈ order.bequests, (frames all).length < 2 ^ 32
  rule : ∀ rule ∈ order.rule, AttributeRule.check rule = .ok ()

/-- Bequests that can be counted are written. -/
theorem exists_encodeBequests {all : Option (List (List UInt8))}
    (h : ∀ l ∈ all, (frames l).length < 2 ^ 32) :
    ∃ bequests, encodeBequests all = .ok bequests ∧ ∀ b ∈ bequests, b.length < 2 ^ 32 := by
  cases all with
  | none => exact ⟨none, rfl, nofun⟩
  | some l =>
    have hl := h l rfl
    refine ⟨some (frames l), Except.map_eq_ok_iff.mpr ⟨_, enframe_eq_ok_iff.mpr ⟨?_, rfl⟩, rfl⟩, ?_⟩
    · exact fun bytes hbytes ↦ (length_le_frames hbytes).trans_lt hl
    · rintro _ ⟨⟩
      exact hl

/-- So is a checked rule. -/
theorem exists_encodeRule {rule : Option AttributeRule.Rule}
    (h : ∀ r ∈ rule, AttributeRule.check r = .ok ()) :
    ∃ bytes, encodeRule rule = .ok bytes ∧ ∀ b ∈ bytes, b.length < 2 ^ 32 := by
  cases rule with
  | none => exact ⟨none, rfl, nofun⟩
  | some r =>
    obtain ⟨bytes, hbytes, hlen⟩ := AttributeRule.exists_encode (h r rfl)
    refine ⟨some bytes, Except.map_eq_ok_iff.mpr ⟨bytes, hbytes, rfl⟩, ?_⟩
    rintro _ ⟨⟩
    exact hlen

theorem length_flat (keys : List Digest) : (flat keys).length = keys.length * 32 :=
  length_flatMap_toList keys

/-- The records stand in the order of their tags. -/
theorem tags_contents (order : Order) (bequests rule : Option (List UInt8)) :
    ((order.contents bequests rule).map Prod.fst).Pairwise (· < ·) := by
  have hsublist : ((order.contents bequests rule).map Prod.fst).Sublist tags := by
    simp only [contents, rosterContents, heirContents, ruleContents, List.map_append, List.append_assoc]
    exact (List.Sublist.refl [1, 2, 3, 4]).append <| (optField_tags_sublist 5 _).append <|
      (optField_tags_sublist 6 _).append <| (optField_tags_sublist 7 _).append <|
      (optField_tags_sublist 8 _).append <| (optField_tags_sublist 9 _).append <|
      (optField_tags_sublist 10 _).append <| (optField_tags_sublist 11 _).append <|
      (optField_tags_sublist 12 _).append <| (optField_tags_sublist 13 _).append <|
      (optField_tags_sublist 14 _).append <| (optField_tags_sublist 15 _).append <|
      (optField_tags_sublist 16 _).append <| (optField_tags_sublist 17 _).append <|
      (optField_tags_sublist 18 _).append <| (optField_tags_sublist 19 _).append <|
      (optField_tags_sublist 20 _).append (optField_tags_sublist 21 _)
  exact List.Pairwise.sublist hsublist (by decide)

/-- **An order that fits and is short enough can be written.** -/
theorem exists_encode {order : Order} (h : order.Fits) (hshort : order.Short) :
    ∃ bytes, order.encode = .ok bytes := by
  obtain ⟨bequests, hbequests, hbequestsLen⟩ := exists_encodeBequests hshort.bequests
  obtain ⟨rule, hrule, hruleLen⟩ := exists_encodeRule hshort.rule
  have hkeys : ∀ keys ∈ order.keys, keys.length ≤ 16 :=
    fun keys hkeys ↦ (h.exists_quorum hkeys).choose_spec.2.short
  have hold : ∀ old ∈ order.oldDevices, old.length ≤ 4 :=
    fun old hold ↦ (h.names_of_oldDevices hold).short
  have hnew : ∀ new ∈ order.newDevices, new.length ≤ 4 :=
    fun new hnew ↦ (h.names_of_newDevices hnew).short
  have hlengths : ∀ p ∈ order.contents bequests rule, p.2.length < 2 ^ 32 := by
    have hshorter : ∀ {n : ℕ}, n ≤ 512 → n < 2 ^ 32 := fun hn ↦ hn.trans_lt (by decide)
    simp only [contents, commonContents, rosterContents, heirContents, ruleContents,
      List.forall_mem_append, List.forall_mem_cons, forall_mem_optField, Option.map_eq_some_iff,
      forall_exists_index, and_imp, forall_apply_eq_imp_iff₂, length_toLeBytes,
      List.Vector.toList_length, length_flat, List.length_singleton, List.not_mem_nil,
      IsEmpty.forall_iff, implies_true, and_true]
    refine ⟨by simp, ?_, ?_, ?_⟩
    · simp
      exact fun keys hk ↦ hshorter (Nat.mul_le_mul_right 32 (hkeys keys hk))
    · simp
      exact hbequestsLen
    · simp
      have hfour : ∀ {n : ℕ}, n ≤ 4 → n * 32 < 2 ^ 32 := fun hn ↦
        hshorter ((Nat.mul_le_mul_right 32 hn).trans (by decide))
      exact ⟨fun old ho ↦ hfour (hold old ho), fun new hn ↦ hfour (hnew new hn), hruleLen⟩
  obtain ⟨bytes, hbytes⟩ := Encodes.exists_iff.mpr ⟨tags_contents order bequests rule, hlengths⟩
  exact ⟨bytes, encode_eq_ok_iff.mpr
    ⟨check_eq_ok_iff.mpr h, bequests, hbequests, rule, hrule, hbytes⟩⟩

/-! ### What was read -/

/-- The bequests that were read can be written, and so can the rule, which is in normal form. -/
structure Reading.Sound (acc : Reading) : Prop where
  bequests : ∀ all ∈ acc.bequests, (frames all).length < 2 ^ 32
  rule : ∀ rule ∈ acc.rule, AttributeRule.check rule = .ok () ∧ rule.normal = rule

/-- One record keeps what was read sound. -/
theorem Reading.Sound.decodeStep {acc acc' : Reading} {p : UInt16 × List UInt8}
    (hp : p.2.length < 2 ^ 32) (hacc : acc.Sound) (h : readField decodeStep acc p = .ok acc') :
    acc'.Sound := by
  obtain ⟨tag, value⟩ := p
  rw [readField, Order.decodeStep] at h
  split at h
  case h_3 | h_12 =>
    simp only [Except.bind_eq_ok_iff] at h
    obtain ⟨byte, -, v, -, hok⟩ := h
    obtain rfl := Except.ok.inj hok
    exact ⟨hacc.bequests, hacc.rule⟩
  -- the bequests and the rule are the fields without a fixed length
  case h_13 =>
    obtain ⟨all, hall, rfl⟩ := Except.map_eq_ok_iff.mp h
    obtain ⟨_, rfl, -, -, rfl⟩ := unframe_eq_ok_iff.mp hall
    refine ⟨?_, hacc.rule⟩
    rintro _ ⟨⟩
    exact hp
  case h_19 =>
    obtain ⟨rule, hrule, rfl⟩ := Except.map_eq_ok_iff.mp h
    refine ⟨hacc.bequests, ?_⟩
    rintro _ ⟨⟩
    exact AttributeRule.sound_of_decode hrule
  case h_22 =>
    obtain rfl := eq_of_skipUnknown h
    exact hacc
  all_goals
    obtain ⟨v, -, rfl⟩ := Except.map_eq_ok_iff.mp h
    exact ⟨hacc.bequests, hacc.rule⟩

/-- **What was read fits its kind**, is short enough to be written, and is in normal form. -/
theorem sound_of_decode {body : List UInt8} {order : Order} (h : decode body = .ok order) :
    order.Fits ∧ order.Short ∧ order.normal = order := by
  obtain ⟨acc, hloop, horder⟩ := Except.bind_eq_ok_iff.mp h
  obtain ⟨l, henc, -⟩ := exists_encodes_of_foldFields hloop
  rw [recordStep_decodeStep.foldFields_eq henc] at hloop
  have hinv := Except.foldlM_invariant (P := Reading.Sound) hloop
  have hvalues := henc.fits
  have hsound := hinv ⟨nofun, nofun⟩ fun p hp _ _ hacc hstep ↦ hacc.decodeStep (hvalues p hp) hstep
  simp only [Reading.order, Except.bind_eq_ok_iff, Except.okOr_eq_ok_iff] at horder
  obtain ⟨version, -, ⟨⟩, -, fileId, -, kind, -, at_, -, ⟨⟩, hcheck, hok⟩ := horder
  obtain rfl := Except.ok.inj hok
  refine ⟨check_eq_ok_iff.mp hcheck, ⟨hsound.bequests, fun rule hrule ↦ (hsound.rule rule hrule).1⟩, ?_⟩
  rw [normal]
  cases hrule : acc.rule with
  | none => rfl
  | some rule => simp [(hsound.rule rule hrule).2]

/-- **The normal form of a rule drops nothing but what has no meaning**, if no unknown action has a known
number. -/
theorem normal_eq_dropVacuous {rule : AttributeRule.Rule}
    (h : ∀ t ∈ rule.tightenings, ∀ tag ∈ t.profile.unknownActions, ¬(1 ≤ tag ∧ tag ≤ 6)) :
    rule.normal = { rule with
      tightenings := rule.tightenings.map fun t ↦ { t with profile := PolicyCodec.dropVacuous t.profile } } := by
  rw [AttributeRule.Rule.normal]
  congr 1
  refine List.map_congr_left fun t ht ↦ ?_
  rw [AttributeRule.Tightening.normal, PolicyCodec.normal_eq_dropVacuous (by decide) fun tag htag ↦
    PolicyCodec.tagToAction_eq_none_iff.mpr (h t ht tag htag)]

/-- **Writer and reader of orders agree.** What is written is read back with the profiles of its rule in
normal form; what is read can be written, and is read again from what it is written as. An order that does
not fit its kind is refused by both for the same reason. -/
theorem decode_encode_agree :
    (∀ (order : Order) (bytes : List UInt8),
      (∀ rule ∈ order.rule, ∀ t ∈ rule.tightenings, ∀ tag ∈ t.profile.unknownActions,
        ¬(1 ≤ tag ∧ tag ≤ 6)) →
      order.encode = .ok bytes →
      decode bytes = .ok { order with
        rule := order.rule.map fun rule ↦ { rule with
          tightenings := rule.tightenings.map fun t ↦
            { t with profile := PolicyCodec.dropVacuous t.profile } } }) ∧
    (∀ (body : List UInt8) (order : Order), decode body = .ok order →
      ∃ bytes, order.encode = .ok bytes ∧ decode bytes = .ok order) ∧
    ∀ order : Order, ¬order.Fits → (∀ body, decode body ≠ .ok order) ∧
      ∃ e, order.encode = .error e ∧
        ∀ body, TlvReader.foldFields decodeStep (TlvReader.new body) {} = .ok (Reading.of order) →
          decode body = .error e := by
  refine ⟨fun order bytes hunknown hencode ↦ ?_, fun body order h ↦ ?_, fun order hfits ↦ ?_⟩
  · rw [decode_encode hencode, normal]
    exact congrArg (fun rule ↦ Except.ok { order with rule := rule })
      (Option.map_congr fun rule hrule ↦ normal_eq_dropVacuous (hunknown rule hrule))
  · obtain ⟨hfits, hshort, hnormal⟩ := sound_of_decode h
    obtain ⟨bytes, hencode⟩ := exists_encode hfits hshort
    exact ⟨bytes, hencode, (decode_encode hencode).trans (congrArg _ hnormal)⟩
  -- the writer and the reader make the same check
  · refine ⟨fun body hbody ↦ hfits (sound_of_decode hbody).1, ?_⟩
    obtain ⟨e, he⟩ : ∃ e, order.check = .error e := by
      cases hcheck : order.check with
      | error e => exact ⟨e, rfl⟩
      | ok => exact absurd (check_eq_ok_iff.mp hcheck) hfits
    refine ⟨e, by rw [encode, he]; rfl, fun body hbody ↦ ?_⟩
    rw [decode, hbody, Except.ok_bind]
    exact Reading.order_of_error he

end OpenCrate.Protocol.Order
