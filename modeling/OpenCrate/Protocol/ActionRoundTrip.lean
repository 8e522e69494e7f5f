import OpenCrate.Protocol.ActionDocuments

/-!
# What the writers of actions write, their readers read

Each record of `action` has its tags and values (`contents`), which the writer writes if the shape is
right and which the reader reads back. The shape bounds every text and every list, so that a value of
the right shape can always be written.
-/

namespace OpenCrate.Protocol.Action

open OpenCrate.Format OpenCrate.Crypto
open Except (refuseIf okOr)

/-! ### Texts and numbers -/

@[simp] theorem text_utf8 (tag tag' : UInt16) (s : String) (span : Span) :
    text ⟨tag, utf8 s, span⟩ tag' = .ok s :=
  Except.okOr_eq_ok_iff.mpr (fromUtf8?_eq_some_iff.mpr rfl)

@[simp] theorem fromU16_asU16 (kind : ActionKind) (tag : UInt16) :
    ActionKind.fromU16 kind.asU16 tag = .ok kind := by
  cases kind <;> rfl

@[simp] theorem fromU8_asU8 (method : Method) (tag : UInt16) :
    Method.fromU8 method.asU8 tag = .ok method := by
  cases method <;> rfl

@[simp] theorem flag_toUInt8 (value : Bool) (tag : UInt16) : flag value.toUInt8 tag = .ok value := by
  cases value <;> rfl

@[simp] theorem kindField_mk (tag tag' : UInt16) (kind : ActionKind) (span : Span) :
    kindField ⟨tag, toLeBytes kind.asU16, span⟩ tag' = .ok kind := by
  rw [kindField, Field.u16_mk, Except.ok_bind, fromU16_asU16]

/-- Every text of a rule has a bounded length, by the check of its own kind. -/
theorem length_le_of_checkTextLen {bound : ℕ} {s : String} {tag : UInt16}
    (h : checkTextLen bound s tag = .ok ()) : (utf8 s).length ≤ bound :=
  not_lt.mp (not_or.mp (Except.refuseIf_eq_ok_iff.mp h)).2

theorem length_le_of_checkName {s : String} {tag : UInt16} (h : checkName s tag = .ok ()) :
    (utf8 s).length ≤ maxActionName :=
  length_le_of_checkTextLen (Except.check_bind_eq_ok_iff.mp h).1

theorem length_le_of_checkHost {s : String} {tag : UInt16} (h : checkHost s tag = .ok ()) :
    (utf8 s).length ≤ maxActionName :=
  length_le_of_checkTextLen (Except.check_bind_eq_ok_iff.mp h).1

theorem length_le_of_checkSecretRef {s : String} {tag : UInt16}
    (h : checkSecretRef s tag = .ok ()) : (utf8 s).length ≤ maxActionName :=
  length_le_of_checkTextLen (Except.check_bind_eq_ok_iff.mp h).1

theorem length_le_of_checkTreePath {s : String} {tag : UInt16} (h : checkTreePath s tag = .ok ()) :
    (utf8 s).length ≤ maxActionPath :=
  length_le_of_checkTextLen (Except.check_bind_eq_ok_iff.mp h).1

theorem length_le_of_checkHttpPath {s : String} {tag : UInt16} (h : checkHttpPath s tag = .ok ()) :
    (utf8 s).length ≤ maxActionPath :=
  length_le_of_checkTextLen (Except.check_bind_eq_ok_iff.mp h).1

/-! ### Methods -/

/-- There are as many methods as numbers, and a list that ascends has no more. -/
theorem length_le_of_checkAscending {a : Method} {rest : List Method}
    (h : checkMethods.checkAscending (a :: rest) = .ok ()) :
    a.asU8.toNat + rest.length ≤ 6 := by
  induction rest generalizing a with
  | nil => cases a <;> decide
  | cons b rest ih =>
    rw [checkMethods.checkAscending] at h
    split_ifs at h with hle
    -- the methods ascend strictly, and there are six of them
    have := ih h
    rw [UInt8.not_le, UInt8.lt_iff_toNat_lt] at hle
    rw [List.length_cons]
    omega

/-- Methods without repetition are six at most. -/
theorem length_le_of_checkMethods {methods : List Method} {tag : UInt16}
    (h : checkMethods methods tag = .ok ()) : methods.length ≤ 6 := by
  obtain ⟨-, h⟩ := Except.check_bind_eq_ok_iff.mp h
  rcases methods with - | ⟨a, rest⟩
  · exact Nat.zero_le _
  · have hone : 1 ≤ a.asU8.toNat := by cases a <;> decide
    have := length_le_of_checkAscending h
    rw [List.length_cons]
    omega

theorem mapM_fromU8_asU8 (methods : List Method) (tag : UInt16) :
    (encodeMethods methods).mapM (fun b ↦ Method.fromU8 b tag) = .ok methods := by
  induction methods with
  | nil => rfl
  | cons method methods ih =>
    rw [encodeMethods, List.map_cons, List.mapM_cons, fromU8_asU8, Except.ok_bind]
    rw [encodeMethods] at ih
    rw [ih]
    rfl

/-- Methods in order are read back. -/
theorem decodeMethods_encodeMethods {methods : List Method} {tag : UInt16}
    (h : checkMethods methods tag = .ok ()) :
    decodeMethods (encodeMethods methods) tag = .ok methods := by
  rw [decodeMethods, mapM_fromU8_asU8, Except.ok_bind, h, Except.ok_bind]

/-! ### Constraints -/

/-- The tags and values of a constraint. -/
def constraintContents : Constraint → Contents
  | .gitPush remote branch => [(FieldTag.remote, utf8 remote), (FieldTag.branch, utf8 branch)]
  | .treeRemove treePrefix => [(FieldTag.path, utf8 treePrefix)]
  | .treeRename fromPrefix toPrefix =>
    [(FieldTag.source, utf8 fromPrefix), (FieldTag.target, utf8 toPrefix)]
  | .httpRequest host methods pathPrefix secretRef =>
    [(FieldTag.host, utf8 host), (FieldTag.methods, encodeMethods methods),
      (FieldTag.pathPrefix, utf8 pathPrefix)] ++ optField FieldTag.secretRef (secretRef.map utf8)

/-- A limit is its records, if its shape passes the check. -/
theorem encodeConstraint_eq_ok_iff {limit : Constraint} {bytes : List UInt8} :
    encodeConstraint limit = .ok bytes ↔
      checkConstraintShape limit = .ok () ∧ Encodes bytes (constraintContents limit) := by
  unfold encodeConstraint
  rw [Except.check_bind_eq_ok_iff]
  cases limit <;>
    simp only [TlvWriter.new_put_bind, TlvWriter.putMany_put_bind, TlvWriter.putMany_putOpt_bind,
      TlvWriter.putMany_finish_eq_ok_iff, constraintContents, List.cons_append, List.nil_append]

theorem recordStep_decodeConstraintStep (kind : ActionKind) :
    RecordStep [1, 2, 3, 4, 5, 6, 7, 8, 9] (decodeConstraintStep kind) where
  span_free _ _ _ _ _ := rfl
  skips acc tag value span h := by
    unfold decodeConstraintStep
    split <;> first | rfl | simp_all

/-- **A limit is read back** from the records of its kind. -/
theorem decodeConstraint_contents {limit : Constraint} {bytes : List UInt8}
    (hshape : checkConstraintShape limit = .ok ()) (henc : Encodes bytes (constraintContents limit)) :
    decodeConstraint bytes limit.kind = .ok limit := by
  rw [decodeConstraint, (recordStep_decodeConstraintStep _).foldFields_eq henc]
  cases limit with
  | gitPush remote branch =>
    simp [constraintContents, readField, decodeConstraintStep, Constraint.kind, FieldTag.remote,
      FieldTag.branch, ConstraintReading.limit, hshape]
  | treeRemove treePrefix =>
    simp [constraintContents, readField, decodeConstraintStep, Constraint.kind, FieldTag.path,
      ConstraintReading.limit, hshape]
  | treeRename fromPrefix toPrefix =>
    simp [constraintContents, readField, decodeConstraintStep, Constraint.kind, FieldTag.source,
      FieldTag.target, ConstraintReading.limit, hshape]
  | httpRequest host methods pathPrefix secretRef =>
    have hmethods : checkMethods methods 7 = .ok () :=
      (Except.check_bind_eq_ok_iff.mp (Except.check_bind_eq_ok_iff.mp hshape).2).1
    rcases secretRef with - | secretRef <;>
      simp [constraintContents, readField, decodeConstraintStep, Constraint.kind, FieldTag.host,
        FieldTag.methods, FieldTag.pathPrefix, FieldTag.secretRef, ConstraintReading.limit, hshape,
        decodeMethods_encodeMethods hmethods]

/-- A constraint of the right shape is short. -/
theorem encodedLength_constraintContents_le {limit : Constraint}
    (h : checkConstraintShape limit = .ok ()) : encodedLength (constraintContents limit) ≤ 1100 := by
  have hname : maxActionName = 128 := rfl
  have hpath : maxActionPath = 512 := rfl
  cases limit with
  | gitPush remote branch =>
    obtain ⟨hremote, hbranch⟩ := Except.check_bind_eq_ok_iff.mp h
    have := length_le_of_checkName hremote
    have := length_le_of_checkTreePath hbranch
    simp only [constraintContents, encodedLength_cons, encodedLength_nil, fieldPrefixLen]
    omega
  | treeRemove treePrefix =>
    have := length_le_of_checkTreePath h
    simp only [constraintContents, encodedLength_cons, encodedLength_nil, fieldPrefixLen]
    omega
  | treeRename fromPrefix toPrefix =>
    obtain ⟨hfrom, hto⟩ := Except.check_bind_eq_ok_iff.mp h
    have := length_le_of_checkTreePath hfrom
    have := length_le_of_checkTreePath hto
    simp only [constraintContents, encodedLength_cons, encodedLength_nil, fieldPrefixLen]
    omega
  | httpRequest host methods pathPrefix secretRef =>
    obtain ⟨hhost, h⟩ := Except.check_bind_eq_ok_iff.mp h
    obtain ⟨hmethods, h⟩ := Except.check_bind_eq_ok_iff.mp h
    obtain ⟨hpath, hsecret⟩ := Except.check_bind_eq_ok_iff.mp h
    have := length_le_of_checkHost hhost
    have := length_le_of_checkMethods hmethods
    have := length_le_of_checkHttpPath hpath
    have hopt : encodedLength (optField FieldTag.secretRef (secretRef.map utf8)) ≤ 6 + 128 := by
      rcases secretRef with - | reference
      · exact Nat.zero_le _
      · have := length_le_of_checkSecretRef hsecret
        simp only [Option.map_some, optField_some, encodedLength_cons, encodedLength_nil,
          fieldPrefixLen]
        omega
    simp only [constraintContents, encodedLength_append, encodedLength_cons, encodedLength_nil,
      fieldPrefixLen, encodeMethods, List.length_map]
    omega

/-- Every checked limit is written, in few bytes. -/
theorem exists_encodeConstraint {limit : Constraint} (h : checkConstraintShape limit = .ok ()) :
    ∃ bytes, encodeConstraint limit = .ok bytes ∧ bytes.length ≤ 1100 := by
  have hlen := encodedLength_constraintContents_le h
  have htags : ((constraintContents limit).map Prod.fst).Pairwise (· < ·) := by
    cases limit with
    | gitPush => simp [constraintContents, FieldTag.remote, FieldTag.branch]
    | treeRemove => simp [constraintContents]
    | treeRename => simp [constraintContents, FieldTag.source, FieldTag.target]
    | httpRequest host methods pathPrefix secretRef =>
      rcases secretRef with - | _ <;>
        simp [constraintContents, FieldTag.host, FieldTag.methods, FieldTag.pathPrefix,
          FieldTag.secretRef]
  obtain ⟨bytes, henc, -⟩ := Encodes.exists_of_short htags (by omega)
  exact ⟨bytes, encodeConstraint_eq_ok_iff.mpr ⟨h, henc⟩, henc.length_eq ▸ hlen⟩

/-! ### Rules -/

/-- The tags and values of a rule, given the bytes of its constraint. -/
def ruleContents (rule : ActionRule) (limit : List UInt8) : Contents :=
  [(RuleTag.kind, toLeBytes rule.kind.asU16), (RuleTag.constraint, limit),
    (RuleTag.maxUses, toLeBytes rule.maxUses), (RuleTag.confirm, [rule.confirm.toUInt8]),
    (RuleTag.delegable, [rule.delegable.toUInt8])]

/-- A rule is its records around those of its limit. -/
theorem encodeRule_eq_ok_iff {rule : ActionRule} {bytes : List UInt8} :
    encodeRule rule = .ok bytes ↔ checkRuleShape rule = .ok () ∧
      ∃ limit, encodeConstraint rule.constraint = .ok limit ∧
        Encodes bytes (ruleContents rule limit) := by
  simp only [encodeRule, Except.check_bind_eq_ok_iff, TlvWriter.new_put_bind,
    TlvWriter.putMany_put_bind, TlvWriter.putMany_bind_eq_ok_iff, TlvWriter.putMany_finish_eq_ok_iff,
    ruleContents, List.cons_append, List.nil_append]

theorem recordStep_decodeRuleStep : RecordStep [1, 2, 3, 4, 5] decodeRuleStep where
  span_free _ _ _ _ _ := rfl
  skips acc tag value span h := by
    unfold decodeRuleStep
    split <;> first | rfl | simp_all

theorem kind_eq_of_checkRuleShape {rule : ActionRule} (h : checkRuleShape rule = .ok ()) :
    rule.kind = rule.constraint.kind :=
  not_not.mp (Except.refuseIf_eq_ok_iff.mp (Except.check_bind_eq_ok_iff.mp h).1)

/-- A written rule is read back. -/
theorem decodeRule_encodeRule {rule : ActionRule} {bytes : List UInt8}
    (h : encodeRule rule = .ok bytes) : decodeRule bytes = .ok rule := by
  obtain ⟨hshape, limit, hlimit, henc⟩ := encodeRule_eq_ok_iff.mp h
  obtain ⟨hconstraint, hlimit⟩ := encodeConstraint_eq_ok_iff.mp hlimit
  have hread : decodeConstraint limit rule.kind = .ok rule.constraint :=
    kind_eq_of_checkRuleShape hshape ▸ decodeConstraint_contents hconstraint hlimit
  rw [decodeRule, recordStep_decodeRuleStep.foldFields_eq henc]
  simp [ruleContents, readField, decodeRuleStep, RuleTag.kind, RuleTag.constraint, RuleTag.maxUses,
    RuleTag.confirm, RuleTag.delegable, hread, hshape]

/-- Every checked rule is written, in few bytes. -/
theorem exists_encodeRule {rule : ActionRule} (h : checkRuleShape rule = .ok ()) :
    ∃ bytes, encodeRule rule = .ok bytes ∧ bytes.length ≤ 1200 := by
  obtain ⟨limit, hlimit, hlen⟩ := exists_encodeConstraint (Except.check_bind_eq_ok_iff.mp h).2
  have hshort : encodedLength (ruleContents rule limit) ≤ 1200 := by
    simp only [ruleContents, encodedLength_cons, encodedLength_nil, fieldPrefixLen, length_toLeBytes,
      LeInt.width_uint16, LeInt.width_uint32, List.length_singleton]
    omega
  have htags : ((ruleContents rule limit).map Prod.fst).Pairwise (· < ·) := by
    simp [ruleContents, RuleTag.kind, RuleTag.constraint, RuleTag.maxUses, RuleTag.confirm,
      RuleTag.delegable]
  obtain ⟨bytes, henc, -⟩ := Encodes.exists_of_short htags (by omega)
  exact ⟨bytes, encodeRule_eq_ok_iff.mpr ⟨h, limit, hlimit, henc⟩, henc.length_eq ▸ hshort⟩

/-- Rules are numbered in their order. -/
theorem ruleRecord_eq_ok_iff (index : ℕ) (rule : ActionRule) (tag : UInt16) (value : List UInt8) :
    ruleRecord index rule = .ok (tag, value) ↔
      index < 2 ^ 16 ∧ tag = UInt16.ofNat index ∧ encodeRule rule = .ok value := by
  simp only [ruleRecord, Except.bind_eq_ok_iff, indexTag_eq_ok_iff, Except.ok.injEq, Prod.mk.injEq]
  constructor
  · rintro ⟨tag, ⟨hlt, rfl⟩, value, hvalue, rfl, rfl⟩
    exact ⟨hlt, rfl, hvalue⟩
  · rintro ⟨hlt, rfl, hvalue⟩
    exact ⟨_, ⟨hlt, rfl⟩, value, hvalue, rfl, rfl⟩

/-- A written rule list is read back. -/
theorem decodeRules_encodeRules {rules : List ActionRule} {bytes : List UInt8}
    (h : encodeRules rules = .ok bytes) : decodeRules bytes = .ok rules := by
  obtain ⟨hlen, h⟩ := Except.check_bind_eq_ok_iff.mp h
  exact TlvReader.collect_writeEach ruleRecord_eq_ok_iff decodeRule_encodeRule h
    (not_lt.mp (Except.refuseIf_eq_ok_iff.mp hlen))

/-- So is every list of them that is not too long. -/
theorem exists_encodeRules {rules : List ActionRule} (hlen : rules.length ≤ maxActionRules)
    (hshape : ∀ rule ∈ rules, checkRuleShape rule = .ok ()) :
    ∃ bytes, encodeRules rules = .ok bytes ∧
      bytes.length ≤ maxActionRules * (fieldPrefixLen + 1200) := by
  have hmul : rules.length * (fieldPrefixLen + 1200) ≤ maxActionRules * (fieldPrefixLen + 1200) :=
    Nat.mul_le_mul_right _ hlen
  obtain ⟨bytes, hbytes, hle⟩ := TlvWriter.exists_writeEach ruleRecord_eq_ok_iff
    (fun rule hrule ↦ exists_encodeRule (hshape rule hrule)) (hlen.trans (by decide))
    (hmul.trans_lt (by decide))
  refine ⟨bytes, ?_, hle.trans hmul⟩
  exact Except.check_bind_eq_ok_iff.mpr ⟨Except.refuseIf_eq_ok_iff.mpr (not_lt.mpr hlen), hbytes⟩

/-! ### Arguments -/

/-- The tags and values of arguments. -/
def argsContents : Args → Contents
  | .gitPush remote branch => [(FieldTag.remote, utf8 remote), (FieldTag.branch, utf8 branch)]
  | .treeRemove path => [(FieldTag.path, utf8 path)]
  | .treeRename source target => [(FieldTag.source, utf8 source), (FieldTag.target, utf8 target)]
  | .httpRequest host method path bodyDigest bodyLen =>
    [(FieldTag.host, utf8 host), (FieldTag.methods, [method.asU8]), (FieldTag.pathPrefix, utf8 path),
      (ArgTag.bodyDigest, bodyDigest.toList), (ArgTag.bodyLen, toLeBytes bodyLen)]

/-- Arguments are their records, if their shape passes the check. -/
theorem encodeArgs_eq_ok_iff {args : Args} {bytes : List UInt8} :
    encodeArgs args = .ok bytes ↔
      checkArgsShape args = .ok () ∧ Encodes bytes (argsContents args) := by
  unfold encodeArgs
  rw [Except.check_bind_eq_ok_iff]
  cases args <;>
    simp only [TlvWriter.new_put_bind, TlvWriter.putMany_put_bind, TlvWriter.putMany_finish_eq_ok_iff,
      argsContents, List.cons_append, List.nil_append]

theorem recordStep_decodeArgsStep (kind : ActionKind) :
    RecordStep [1, 2, 3, 4, 5, 6, 7, 8, 10, 11] (decodeArgsStep kind) where
  span_free _ _ _ _ _ := rfl
  skips acc tag value span h := by
    unfold decodeArgsStep
    split <;> first | rfl | simp_all

/-- Written arguments are read back. -/
theorem decodeArgs_encodeArgs {args : Args} {bytes : List UInt8} (h : encodeArgs args = .ok bytes) :
    decodeArgs bytes args.kind = .ok args := by
  obtain ⟨hshape, henc⟩ := encodeArgs_eq_ok_iff.mp h
  rw [decodeArgs, (recordStep_decodeArgsStep _).foldFields_eq henc]
  cases args with
  | gitPush remote branch =>
    simp [argsContents, readField, decodeArgsStep, Args.kind, FieldTag.remote, FieldTag.branch,
      ArgsReading.args, hshape]
  | treeRemove path =>
    simp [argsContents, readField, decodeArgsStep, Args.kind, FieldTag.path, ArgsReading.args, hshape]
  | treeRename source target =>
    simp [argsContents, readField, decodeArgsStep, Args.kind, FieldTag.source, FieldTag.target,
      ArgsReading.args, hshape]
  | httpRequest host method path bodyDigest bodyLen =>
    simp [argsContents, readField, decodeArgsStep, Args.kind, FieldTag.host, FieldTag.methods,
      FieldTag.pathPrefix, ArgTag.bodyDigest, ArgTag.bodyLen, ArgsReading.args, hshape]

/-- Arguments of the right shape can be written in a bounded space. -/
theorem exists_encodeArgs {args : Args} (h : checkArgsShape args = .ok ()) :
    ∃ bytes, encodeArgs args = .ok bytes ∧ bytes.length ≤ 1100 := by
  have hname : maxActionName = 128 := rfl
  have hpath : maxActionPath = 512 := rfl
  have hshort : encodedLength (argsContents args) ≤ 1100 ∧
      ((argsContents args).map Prod.fst).Pairwise (· < ·) := by
    cases args with
    | gitPush remote branch =>
      obtain ⟨hremote, hbranch⟩ := Except.check_bind_eq_ok_iff.mp h
      have := length_le_of_checkName hremote
      have := length_le_of_checkTreePath hbranch
      refine ⟨?_, by simp [argsContents, FieldTag.remote, FieldTag.branch]⟩
      simp only [argsContents, encodedLength_cons, encodedLength_nil, fieldPrefixLen]
      omega
    | treeRemove path =>
      have := length_le_of_checkTreePath h
      refine ⟨?_, by simp [argsContents]⟩
      simp only [argsContents, encodedLength_cons, encodedLength_nil, fieldPrefixLen]
      omega
    | treeRename source target =>
      obtain ⟨hsource, htarget⟩ := Except.check_bind_eq_ok_iff.mp h
      have := length_le_of_checkTreePath hsource
      have := length_le_of_checkTreePath htarget
      refine ⟨?_, by simp [argsContents, FieldTag.source, FieldTag.target]⟩
      simp only [argsContents, encodedLength_cons, encodedLength_nil, fieldPrefixLen]
      omega
    | httpRequest host method path bodyDigest bodyLen =>
      obtain ⟨hhost, h⟩ := Except.check_bind_eq_ok_iff.mp h
      obtain ⟨hhttp, -⟩ := Except.check_bind_eq_ok_iff.mp h
      have := length_le_of_checkHost hhost
      have := length_le_of_checkHttpPath hhttp
      refine ⟨?_, by simp [argsContents, FieldTag.host, FieldTag.methods, FieldTag.pathPrefix,
        ArgTag.bodyDigest, ArgTag.bodyLen]⟩
      simp only [argsContents, encodedLength_cons, encodedLength_nil, fieldPrefixLen,
        List.length_singleton, List.Vector.toList_length, length_toLeBytes, LeInt.width_uint32]
      omega
  obtain ⟨bytes, henc, -⟩ := Encodes.exists_of_short hshort.2 (by omega)
  exact ⟨bytes, encodeArgs_eq_ok_iff.mpr ⟨h, henc⟩, henc.length_eq ▸ hshort.1⟩

/-! ### Requests -/

/-- The tags and values of a request, given the bytes of its arguments. -/
def requestContents (ask : ActionRequest) (args : List UInt8) : Contents :=
  [(RequestTag.grantId, ask.grantId.toList), (RequestTag.doorFpr, ask.doorFpr.toList),
    (RequestTag.kind, toLeBytes ask.kind.asU16), (RequestTag.args, args),
    (RequestTag.nonce, ask.nonce.toList), (RequestTag.note, utf8 ask.note)]

/-- A request is its records around those of its arguments. -/
theorem encodeRequest_eq_ok_iff {ask : ActionRequest} {bytes : List UInt8} :
    encodeRequest ask = .ok bytes ↔ checkRequestShape ask = .ok () ∧
      ∃ args, encodeArgs ask.args = .ok args ∧ Encodes bytes (requestContents ask args) := by
  simp only [encodeRequest, Except.check_bind_eq_ok_iff, TlvWriter.new_put_bind,
    TlvWriter.putMany_put_bind, TlvWriter.putMany_bind_eq_ok_iff, TlvWriter.putMany_finish_eq_ok_iff,
    requestContents, List.cons_append, List.nil_append]

theorem recordStep_decodeRequestStep : RecordStep [1, 2, 3, 4, 5, 6] decodeRequestStep where
  span_free _ _ _ _ _ := rfl
  skips acc tag value span h := by
    unfold decodeRequestStep
    split <;> first | rfl | simp_all

/-- A request of the right shape can be written. -/
theorem exists_encodeRequest {ask : ActionRequest} (h : checkRequestShape ask = .ok ()) :
    ∃ bytes, encodeRequest ask = .ok bytes := by
  obtain ⟨hnote, hargs⟩ := Except.check_bind_eq_ok_iff.mp (Except.check_bind_eq_ok_iff.mp h).2
  obtain ⟨args, hencoded, hlen⟩ := exists_encodeArgs hargs
  have hnote := length_utf8_le_of_checkNote hnote
  have hshort : encodedLength (requestContents ask args) < 2 ^ 32 := by
    rw [maxNote] at hnote
    simp only [requestContents, encodedLength_cons, encodedLength_nil, fieldPrefixLen,
      length_toLeBytes, LeInt.width_uint16, List.Vector.toList_length]
    omega
  have htags : ((requestContents ask args).map Prod.fst).Pairwise (· < ·) := by
    simp [requestContents, RequestTag.grantId, RequestTag.doorFpr, RequestTag.kind, RequestTag.args,
      RequestTag.nonce, RequestTag.note]
  obtain ⟨bytes, henc, -⟩ := Encodes.exists_of_short htags hshort
  exact ⟨bytes, encodeRequest_eq_ok_iff.mpr ⟨h, args, hencoded, henc⟩⟩

/-- **Requests** obey the law of writers and readers. -/
theorem writerReader_request : Except.WriterReader encodeRequest decodeRequest id := by
  refine .of_exists ?_ ?_ fun _ ↦ rfl
  · intro ask bytes h
    obtain ⟨hshape, args, hargs, henc⟩ := encodeRequest_eq_ok_iff.mp h
    obtain ⟨hkind, hshape'⟩ := Except.check_bind_eq_ok_iff.mp hshape
    obtain ⟨hnote, -⟩ := Except.check_bind_eq_ok_iff.mp hshape'
    have hkind : ask.kind = ask.args.kind := not_not.mp (Except.refuseIf_eq_ok_iff.mp hkind)
    have hread : decodeArgs args ask.kind = .ok ask.args := hkind ▸ decodeArgs_encodeArgs hargs
    have hnote : ∀ tag span, noteField ⟨tag, utf8 ask.note, span⟩ 6 = .ok ask.note :=
      fun _ _ ↦ noteField_utf8 hnote
    rw [decodeRequest, recordStep_decodeRequestStep.foldFields_eq henc]
    simp [requestContents, readField, decodeRequestStep, RequestTag.grantId, RequestTag.doorFpr,
      RequestTag.kind, RequestTag.args, RequestTag.nonce, RequestTag.note, hread, hnote, hshape]
  · intro ask bytes h
    simp only [decodeRequest, Except.bind_eq_ok_iff] at h
    obtain ⟨_, -, _, -, _, -, _, -, _, -, _, -, _, -, _, -, ⟨⟩, hshape, hask⟩ := h
    obtain rfl := Except.ok.inj hask
    exact exists_encodeRequest hshape

/-! ### The queue of the owner -/

/-- The tags and values of a queue entry, given the bytes of its arguments. -/
def pendingContents (pending : PendingAction) (args : List UInt8) : Contents :=
  [(PendingTag.seq, toLeBytes pending.seq), (PendingTag.grantId, pending.grantId.toList),
    (PendingTag.doorFpr, pending.doorFpr.toList), (PendingTag.kind, toLeBytes pending.kind.asU16),
    (PendingTag.args, args), (PendingTag.nonce, pending.nonce.toList),
    (PendingTag.note, utf8 pending.note), (PendingTag.at_, toLeBytes pending.at_)]

/-- What waits for a decision is written alike. -/
theorem encodePending_eq_ok_iff {pending : PendingAction} {bytes : List UInt8} :
    encodePending pending = .ok bytes ↔ checkPendingShape pending = .ok () ∧
      ∃ args, encodeArgs pending.args = .ok args ∧ Encodes bytes (pendingContents pending args) := by
  simp only [encodePending, Except.check_bind_eq_ok_iff, TlvWriter.new_put_bind,
    TlvWriter.putMany_put_bind, TlvWriter.putMany_bind_eq_ok_iff, TlvWriter.putMany_finish_eq_ok_iff,
    pendingContents, List.cons_append, List.nil_append]

theorem recordStep_decodePendingStep : RecordStep [1, 2, 3, 4, 5, 6, 7, 8] decodePendingStep where
  span_free _ _ _ _ _ := rfl
  skips acc tag value span h := by
    unfold decodePendingStep
    split <;> first | rfl | simp_all

/-- A queue entry of the right shape can be written. -/
theorem exists_encodePending {pending : PendingAction} (h : checkPendingShape pending = .ok ()) :
    ∃ bytes, encodePending pending = .ok bytes := by
  obtain ⟨hnote, hargs⟩ := Except.check_bind_eq_ok_iff.mp (Except.check_bind_eq_ok_iff.mp h).2
  obtain ⟨args, hencoded, hlen⟩ := exists_encodeArgs hargs
  have hnote := length_utf8_le_of_checkNote hnote
  have hshort : encodedLength (pendingContents pending args) < 2 ^ 32 := by
    rw [maxNote] at hnote
    simp only [pendingContents, encodedLength_cons, encodedLength_nil, fieldPrefixLen,
      length_toLeBytes, LeInt.width_uint16, LeInt.width_uint64, LeInt.width_int64,
      List.Vector.toList_length]
    omega
  have htags : ((pendingContents pending args).map Prod.fst).Pairwise (· < ·) := by
    simp [pendingContents, PendingTag.seq, PendingTag.grantId, PendingTag.doorFpr, PendingTag.kind,
      PendingTag.args, PendingTag.nonce, PendingTag.note, PendingTag.at_]
  obtain ⟨bytes, henc, -⟩ := Encodes.exists_of_short htags hshort
  exact ⟨bytes, encodePending_eq_ok_iff.mpr ⟨h, args, hencoded, henc⟩⟩

/-- **Queue entries** obey the law of writers and readers. -/
theorem writerReader_pending : Except.WriterReader encodePending decodePending id := by
  refine .of_exists ?_ ?_ fun _ ↦ rfl
  · intro pending bytes h
    obtain ⟨hshape, args, hargs, henc⟩ := encodePending_eq_ok_iff.mp h
    obtain ⟨hkind, hshape'⟩ := Except.check_bind_eq_ok_iff.mp hshape
    obtain ⟨hnote, -⟩ := Except.check_bind_eq_ok_iff.mp hshape'
    have hkind : pending.kind = pending.args.kind := not_not.mp (Except.refuseIf_eq_ok_iff.mp hkind)
    have hread : decodeArgs args pending.kind = .ok pending.args :=
      hkind ▸ decodeArgs_encodeArgs hargs
    have hnote : ∀ tag span, noteField ⟨tag, utf8 pending.note, span⟩ 7 = .ok pending.note :=
      fun _ _ ↦ noteField_utf8 hnote
    rw [decodePending, recordStep_decodePendingStep.foldFields_eq henc]
    simp [pendingContents, readField, decodePendingStep, PendingTag.seq, PendingTag.grantId,
      PendingTag.doorFpr, PendingTag.kind, PendingTag.args, PendingTag.nonce, PendingTag.note,
      PendingTag.at_, hread, hnote, hshape]
  · intro pending bytes h
    simp only [decodePending, Except.bind_eq_ok_iff] at h
    obtain ⟨_, -, _, -, _, -, _, -, _, -, _, -, _, -, _, -, _, -, _, -, ⟨⟩, hshape, hpending⟩ := h
    obtain rfl := Except.ok.inj hpending
    exact exists_encodePending hshape

end OpenCrate.Protocol.Action
