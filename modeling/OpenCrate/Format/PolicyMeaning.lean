import OpenCrate.Format.PolicyCodec
import OpenCrate.Policy.Tightening

/-!
# What encoding does to the meaning of a policy

A policy is written by what it means, not by how it is stored: an explicit denial is written as the
absence of a permission, and a requirement of the weakest binding as the absence of a requirement.
`normal` is the policy that is read back, for every policy and every version; it decides exactly as
the one that was written (`SameMeaning.evaluate`).

A field that is **missing** has its own reading. Four fields of the first version and the
action-binding field of the fourth are required; without the watermark field the mark is required,
and without the limit of opens one open is permitted. The last of the three is stricter than every
limit but one: a policy whose limit is zero permits no open at all.
-/

namespace OpenCrate

open Except (refuseIf check_bind_eq_ok_iff refuseIf_eq_ok_iff)

/-! ### Policies that decide alike -/

/-- Two policies that no decision can tell apart. -/
structure SameMeaning (q p : Policy) : Prop where
  rule : ∀ action, q.rule action = p.rule action
  binding : ∀ action, q.bindingFor action = p.bindingFor action
  validity : q.validity = p.validity
  maxOpens : q.maxOpens = p.maxOpens
  network : q.network = p.network
  watermark : q.watermark = p.watermark
  unknownActions : q.unknownActions = p.unknownActions

namespace SameMeaning

variable {q p : Policy}

theorem refl (p : Policy) : SameMeaning p p :=
  ⟨fun _ ↦ rfl, fun _ ↦ rfl, rfl, rfl, rfl, rfl, rfl⟩

/-- Profiles that mean the same tighten policies that mean the same in the same way. -/
theorem intersect {s s' : Policy} (h : SameMeaning q p) (hs : SameMeaning s s') :
    SameMeaning (intersect q s) (OpenCrate.intersect p s') where
  rule action := by
    have hiff : (OpenCrate.intersect q s).rule action = .allow ↔
        (OpenCrate.intersect p s').rule action = .allow := by
      rw [rule_intersect_eq_allow_iff, rule_intersect_eq_allow_iff, h.rule, hs.rule]
    rcases hq : (OpenCrate.intersect q s).rule action with - | - <;>
      rcases hp : (OpenCrate.intersect p s').rule action with - | - <;> simp_all
  binding action := by rw [bindingFor_intersect, bindingFor_intersect, h.binding, hs.binding]
  validity := by simp only [OpenCrate.intersect, h.validity, hs.validity]
  maxOpens := by simp only [OpenCrate.intersect, h.maxOpens, hs.maxOpens]
  network := by simp only [OpenCrate.intersect, h.network, hs.network]
  watermark := by simp only [OpenCrate.intersect, h.watermark, hs.watermark]
  unknownActions := by simp only [OpenCrate.intersect, h.unknownActions, hs.unknownActions]

/-- Composing with a lease does not tell apart two policies of the same meaning. -/
theorem composed (h : SameMeaning q p) (lease : Option LeaseFacts) :
    SameMeaning (composed q lease) (OpenCrate.composed p lease) := by
  rcases hs : lease.bind LeaseFacts.serverPolicy with - | server
  · simpa [OpenCrate.composed, hs] using h
  · simpa [OpenCrate.composed, hs] using h.intersect (refl server)

/-- **Policies that mean the same decide the same**, denial reasons included. -/
theorem evaluate (h : SameMeaning q p) (lease : Option LeaseFacts) (action : Action)
    (ctx : Context) : evaluate q lease action ctx = OpenCrate.evaluate p lease action ctx := by
  have hc := h.composed lease
  have hobligations : obligationsOf (OpenCrate.composed q lease) =
      obligationsOf (OpenCrate.composed p lease) := by
    simp only [obligationsOf, hc.watermark, hc.rule]
  have hdecide : decideAccess q lease action ctx = decideAccess p lease action ctx := by
    simp only [decideAccess, checkLeased, checkRule, hc.unknownActions, hc.binding, hc.network,
      hc.validity, hc.maxOpens, hc.rule, h.rule, hobligations]
  rw [OpenCrate.evaluate, OpenCrate.evaluate, hdecide]

end SameMeaning

/-- **A lease whose profile means the same decides the same**, denial reasons included. -/
theorem evaluate_map_serverPolicy {lease : LeaseFacts} {f : Policy → Policy}
    (hf : ∀ p ∈ lease.serverPolicy, SameMeaning (f p) p) {author : Policy} {action : Action}
    {ctx : Context} :
    evaluate author (some { lease with serverPolicy := lease.serverPolicy.map f }) action ctx =
      evaluate author (some lease) action ctx := by
  have hc : SameMeaning
      (composed author (some { lease with serverPolicy := lease.serverPolicy.map f }))
      (composed author (some lease)) := by
    cases hserver : lease.serverPolicy with
    | none => simpa [composed, hserver] using SameMeaning.refl author
    | some p => simpa [composed, hserver] using (SameMeaning.refl author).intersect (hf p hserver)
  have hdecide : decideAccess author (some { lease with serverPolicy := lease.serverPolicy.map f })
      action ctx = decideAccess author (some lease) action ctx := by
    simp only [decideAccess, checkLeased, checkRule, obligationsOf, hc.unknownActions, hc.binding,
      hc.network, hc.validity, hc.maxOpens, hc.rule, hc.watermark]
    rfl
  rw [evaluate, evaluate, hdecide]

/-- `q` is **no weaker** than `p`: it allows only what `p` allows, and obliges to at least as
much. -/
def Policy.NoWeaker (q p : Policy) : Prop :=
  ∀ lease action ctx o, evaluate q lease action ctx = .allow o →
    ∃ o', evaluate p lease action ctx = .allow o' ∧ o.AtLeastAsStrict o'

namespace Format.PolicyCodec

/-! ### The policy that is read back -/

/-- A policy without its explicit denials and without the requirements that require nothing. -/
def dropVacuous (p : Policy) : Policy :=
  { p with
    actions := p.actions.retain fun _ rule ↦ rule = .allow
    actionBinding := p.actionBinding.retain fun _ binding ↦ binding ≠ .software }

/-- The policy that is read back from the bytes of `p`. -/
def normal (version : UInt16) (p : Policy) : Policy :=
  { dropVacuous p with
    actionBinding :=
      if firstActionBindingVersion ≤ version then (dropVacuous p).actionBinding else ∅
    unknownActions := p.unknownActions.retain fun tag _ ↦ (tagToAction tag).isNone }

theorem rule_dropVacuous (p : Policy) (action : Action) :
    (dropVacuous p).rule action = p.rule action := by
  rw [Policy.rule, Policy.rule, dropVacuous, BTreeMap.get?_retain]
  rcases p.actions.get? action with - | - | - <;> rfl

theorem requirement_dropVacuous (p : Policy) (action : Action) :
    ((dropVacuous p).actionBinding.get? action).getD .software =
      (p.actionBinding.get? action).getD .software := by
  rw [dropVacuous, BTreeMap.get?_retain]
  rcases p.actionBinding.get? action with - | - | - | - <;> rfl

/-- Dropping the vacuous rules does not change the meaning. -/
theorem sameMeaning_dropVacuous (p : Policy) : SameMeaning (dropVacuous p) p where
  rule := rule_dropVacuous p
  binding action := by
    rw [Policy.bindingFor, requirement_dropVacuous]
    rfl
  validity := rfl
  maxOpens := rfl
  network := rfl
  watermark := rfl
  unknownActions := rfl

theorem mem_unknownActions_normal {version : UInt16} {p : Policy} {tag : UInt16} :
    tag ∈ (normal version p).unknownActions ↔
      tag ∈ p.unknownActions ∧ tagToAction tag = none := by
  rw [BTreeSet.mem_def, normal, BTreeMap.get?_retain, Option.filter_eq_some_iff,
    Option.isNone_iff_eq_none, ← BTreeSet.mem_def]

/-- The normal form of a policy is normal. -/
theorem isNormal_normal (version : UInt16) (p : Policy) : IsNormal version (normal version p) where
  noDeny a h := by
    rw [normal, dropVacuous, BTreeMap.get?_retain, Option.filter_eq_some_iff] at h
    exact absurd h.2 (by decide)
  noSoftware a h := by
    rw [normal] at h
    split_ifs at h
    · rw [dropVacuous, BTreeMap.get?_retain, Option.filter_eq_some_iff] at h
      exact absurd h.2 (by decide)
    · exact absurd h (by simp)
  unknown _ ht := (mem_unknownActions_normal.mp ht).2
  versioned hlt a := by
    rw [normal, if_neg (not_le.mpr hlt), BTreeMap.get?_empty]

/-- Nothing else is dropped, where the field of requirements exists and unknown tags are unknown. -/
theorem normal_eq_dropVacuous {version : UInt16} {p : Policy}
    (hversion : firstActionBindingVersion ≤ version)
    (hunknown : ∀ tag ∈ p.unknownActions, tagToAction tag = none) :
    normal version p = dropVacuous p := by
  have hsame : (normal version p).unknownActions = p.unknownActions :=
    BTreeSet.ext_mem fun tag ↦ by
      rw [mem_unknownActions_normal]
      exact ⟨fun h ↦ h.1, fun h ↦ ⟨h, hunknown tag h⟩⟩
  show ({ dropVacuous p with
    actionBinding := _, unknownActions := (normal version p).unknownActions } : Policy) = _
  rw [if_pos hversion, hsame]
  rfl

theorem actionsByTag_normal (version : UInt16) (p : Policy) :
    actionsByTag (normal version p) = actionsByTag p := by
  refine BTreeMap.ext_get? fun tag ↦ ?_
  rw [get?_actionsByTag, get?_actionsByTag]
  rcases htag : tagToAction tag with - | a
  · simp only [mem_unknownActions_normal, htag, and_true]
  · exact congrArg (fun rule ↦ some (ruleByte rule)) (rule_dropVacuous p a)

/-- **The bytes say nothing about what was dropped.** -/
theorem encode_normal (version : UInt16) (p : Policy) :
    encode version (normal version p) = encode version p := by
  have hactions : encodeActions (normal version p) = encodeActions p := by
    rw [encodeActions, encodeActions, actionsByTag_normal]
  rw [encode, encode, hactions]
  by_cases hversion : firstActionBindingVersion ≤ version
  · have hbindings : encodeActionBinding (normal version p) = encodeActionBinding p := by
      have hkeep : (normal version p).actionBinding = (dropVacuous p).actionBinding :=
        if_pos hversion
      simp only [encodeActionBinding, hkeep, requirement_dropVacuous]
    rw [hbindings]
    rfl
  · simp only [if_neg hversion]
    rfl

/-- **What is read back.** Every policy is written, and read as its normal form. -/
theorem decode_encode_normal (version : UInt16) (p : Policy) :
    ∃ bytes, encode version p = .ok bytes ∧ bytes.length < 2 ^ 32 ∧
      decode version bytes = .ok (normal version p) := by
  rw [← encode_normal version p]
  exact decode_encode (isNormal_normal version p)

/-- What is read is in normal form. -/
theorem normal_of_decode {version : UInt16} {bytes : List UInt8} {p : Policy}
    (h : decode version bytes = .ok p) : normal version p = p := by
  obtain ⟨bytes', hencode, -, hdecode⟩ := decode_encode (isNormal_of_decode h)
  obtain ⟨bytes'', hencode', -, hdecode'⟩ := decode_encode_normal version p
  obtain rfl := Except.ok.inj (hencode.symm.trans hencode')
  exact Except.ok.inj (hdecode'.symm.trans hdecode)

/-- **Encoding preserves meaning.** From version 4 on every policy is written, and read back without
its explicit denials and vacuous requirements; that policy has the same bytes and decides the same.
In every version, what is read is written so that it is read again. -/
theorem encoding_preserves_meaning :
    (∀ (version : UInt16) (p : Policy), firstActionBindingVersion ≤ version →
      (∀ tag ∈ p.unknownActions, ¬(1 ≤ tag ∧ tag ≤ 6)) →
      ∃ bytes, encode version p = .ok bytes ∧ decode version bytes = .ok (dropVacuous p) ∧
        encode version (dropVacuous p) = .ok bytes ∧
        ∀ lease action ctx,
          evaluate (dropVacuous p) lease action ctx = evaluate p lease action ctx) ∧
      ∀ (version : UInt16) (bytes : List UInt8) (p : Policy), decode version bytes = .ok p →
        ∃ bytes', encode version p = .ok bytes' ∧ decode version bytes' = .ok p := by
  constructor
  · intro version p hversion hunknown
    obtain ⟨bytes, hencode, -, hdecode⟩ := decode_encode_normal version p
    have heq : normal version p = dropVacuous p :=
      normal_eq_dropVacuous hversion fun tag htag ↦
        tagToAction_eq_none_iff.mpr (hunknown tag htag)
    refine ⟨bytes, hencode, heq ▸ hdecode, ?_, (sameMeaning_dropVacuous p).evaluate⟩
    rw [← heq, encode_normal, hencode]
  · intro version bytes p hdecode
    obtain ⟨bytes', hencode, -, hdecode'⟩ := decode_encode (isNormal_of_decode hdecode)
    exact ⟨bytes', hencode, hdecode'⟩

/-- A policy stored with everything that is dropped: a denial, a requirement that requires nothing
and an action that this client does not know. -/
def vacuousPolicy : Policy :=
  { Policy.denyAll with
    actions := (Policy.denyAll.allow .view).actions.insert .print .deny
    actionBinding := BTreeMap.insert ∅ .view .software
    unknownActions := BTreeSet.insert ∅ 9 }

/-- The law at a policy that is not in normal form. -/
theorem encoding_preserves_meaning_vacuousPolicy :
    vacuousPolicy ≠ dropVacuous vacuousPolicy ∧
      ∃ bytes, encode 5 vacuousPolicy = .ok bytes ∧
        decode 5 bytes = .ok (dropVacuous vacuousPolicy) := by
  refine ⟨by decide +kernel, ?_⟩
  have hunknown : ∀ tag ∈ vacuousPolicy.unknownActions, ¬(1 ≤ tag ∧ tag ≤ 6) := by
    intro tag htag
    obtain rfl : tag = 9 := by
      rcases BTreeSet.mem_insert.mp htag with rfl | htag
      · rfl
      · exact absurd htag (BTreeSet.not_mem_empty tag)
    decide
  obtain ⟨bytes, hencode, hdecode, -⟩ :=
    encoding_preserves_meaning.1 5 vacuousPolicy (by decide) hunknown
  exact ⟨bytes, hencode, hdecode⟩

/-! ### Missing fields -/

section Missing

variable {version : UInt16} {p : Policy}

/-- Fields without which a policy is refused. -/
def requiredTags (version : UInt16) : List UInt16 :=
  [Tag.actions, Tag.validity, Tag.network, Tag.minBinding] ++
    if firstActionBindingVersion ≤ version then [Tag.actionBinding] else []

/-- The policy read from the fields of `p` whose tags are kept: what is missing has its strict
reading. -/
def withKept (keep : UInt16 → Bool) (p : Policy) : Policy :=
  { p with
    maxOpens := if keep Tag.maxOpens then p.maxOpens else some opensWhenTheFieldIsAbsent
    watermark := if keep Tag.watermark then p.watermark else true }

theorem decodeStep_span (acc : Reading) (tag : UInt16) (value : List UInt8) (span span' : Span) :
    decodeStep version acc ⟨tag, value, span⟩ = decodeStep version acc ⟨tag, value, span'⟩ := rfl

/-- One field of a policy, if its tag is kept. -/
def keptStep (version : UInt16) (keep : UInt16 → Bool) (acc : Reading) (c : UInt16 × List UInt8) :
    Except FormatError Reading :=
  if keep c.1 then decodeStep version acc ⟨c.1, c.2, ⟨0, 0⟩⟩ else .ok acc

/-- The policy read from those of the six common fields that are kept. -/
def readKept (keep : UInt16 → Bool) (p : Policy) : Policy where
  actions := if keep 1 then p.actions else ∅
  validity := if keep 2 then p.validity else .always
  maxOpens := if keep 5 then p.maxOpens else some opensWhenTheFieldIsAbsent
  network := if keep 3 then p.network else .strictOnline
  minBinding := if keep 4 then p.minBinding else .software
  actionBinding := ∅
  watermark := if keep 6 then p.watermark else true
  unknownActions := if keep 1 then p.unknownActions else ∅

/-- The six common fields, each read if it is kept. -/
theorem foldlM_keptStep (hp : IsNormal version p) (keep : UInt16 → Bool) {actions : List UInt8}
    (hactions : Encodes actions ((actionsByTag p).entries.map fun e ↦ (e.1, [e.2]))) :
    (commonContents p actions).foldlM (keptStep version keep) Reading.start =
      .ok ⟨readKept keep p, keep 1, keep 2, keep 3, keep 4, false⟩ := by
  have hdecode := decodeActions_encode hp hactions (q := Reading.start.policy) rfl rfl
  have hwatermark : ((if p.watermark then 1 else 0) != (0 : UInt8)) = p.watermark := by
    cases p.watermark <;> rfl
  -- what each field does to the reading, whether it is kept or not
  have h₁ : keptStep version keep Reading.start (1, actions) = .ok { Reading.start with
      policy := { Reading.start.policy with
        actions := if keep 1 then p.actions else ∅
        unknownActions := if keep 1 then p.unknownActions else ∅ }
      seenActions := keep 1 } := by
    rw [keptStep]
    cases keep 1
    · rfl
    · simp only [if_true, decodeStep, hdecode, Except.ok_bind]
  have h₂ (acc : Reading) : keptStep version keep acc (2, encodeValidity p.validity) =
      .ok { acc with
        policy := { acc.policy with
          validity := if keep 2 then p.validity else acc.policy.validity }
        seenValidity := keep 2 || acc.seenValidity } := by
    rw [keptStep]
    cases keep 2
    · rfl
    · simp only [if_true, decodeStep, decodeValidity_encodeValidity, Except.ok_bind, Bool.true_or]
  have h₃ (acc : Reading) : keptStep version keep acc (3, encodeNetwork p.network) =
      .ok { acc with
        policy := { acc.policy with
          network := if keep 3 then p.network else acc.policy.network }
        seenNetwork := keep 3 || acc.seenNetwork } := by
    rw [keptStep]
    cases keep 3
    · rfl
    · simp only [if_true, decodeStep, decodeNetwork_encodeNetwork, Except.ok_bind, Bool.true_or]
  have h₄ (acc : Reading) : keptStep version keep acc (4, [encodeBinding p.minBinding]) =
      .ok { acc with
        policy := { acc.policy with
          minBinding := if keep 4 then p.minBinding else acc.policy.minBinding }
        seenBinding := keep 4 || acc.seenBinding } := by
    rw [keptStep]
    cases keep 4
    · rfl
    · simp only [if_true, decodeStep, Field.u8_mk, decodeBinding_encodeBinding, Except.ok_bind,
        Bool.true_or]
  have h₅ (acc : Reading) : keptStep version keep acc (5, encodeMaxOpens p.maxOpens) =
      .ok { acc with
        policy := { acc.policy with
          maxOpens := if keep 5 then p.maxOpens else acc.policy.maxOpens } } := by
    rw [keptStep]
    cases keep 5
    · rfl
    · simp only [if_true, decodeStep, decodeMaxOpens_encodeMaxOpens, Except.ok_bind]
  have h₆ (acc : Reading) : keptStep version keep acc (6, [if p.watermark then 1 else 0]) =
      .ok { acc with
        policy := { acc.policy with
          watermark := if keep 6 then p.watermark else acc.policy.watermark } } := by
    rw [keptStep]
    cases keep 6
    · rfl
    · simp only [if_true, decodeStep, Field.u8_mk, Except.ok_bind, hwatermark]
  simp only [commonContents, List.foldlM_cons, h₁, h₂, h₃, h₄, h₅, h₆, Except.ok_bind,
    Except.foldlM_nil]
  simp only [Reading.start, Bool.or_false]
  rfl

/-- The reader insists on the required fields, and on no other ones. -/
theorem checkSeen_eq_ok_iff {acc : Reading} :
    checkSeen version acc = .ok () ↔
      acc.seenActions = true ∧ acc.seenValidity = true ∧ acc.seenNetwork = true ∧
        acc.seenBinding = true ∧
        (firstActionBindingVersion ≤ version → acc.seenActionBinding = true) := by
  simp only [checkSeen, check_bind_eq_ok_iff, refuseIf_eq_ok_iff, not_and, Bool.not_eq_false]

theorem mem_requiredTags {keep : UInt16 → Bool} :
    (∀ tag ∈ requiredTags version, keep tag = true) ↔
      keep 1 = true ∧ keep 2 = true ∧ keep 3 = true ∧ keep 4 = true ∧
        (firstActionBindingVersion ≤ version → keep 7 = true) := by
  rw [requiredTags]
  split_ifs with hversion <;> simp [hversion, Tag.actions, Tag.validity, Tag.network,
    Tag.minBinding, Tag.actionBinding]

/-- With the required fields, what is read is the policy up to its modifiers. -/
theorem readKept_eq {keep : UInt16 → Bool} (h₁ : keep 1 = true) (h₂ : keep 2 = true)
    (h₃ : keep 3 = true) (h₄ : keep 4 = true) :
    { readKept keep p with actionBinding := p.actionBinding } = withKept keep p := by
  simp only [readKept, withKept, h₁, h₂, h₃, h₄, if_true]
  rfl

/-- **Reading some of the fields of a policy.** A required field is not missing, and the two others
have their strict reading where they are. -/
theorem decode_filter (hp : IsNormal version p) (keep : UInt16 → Bool) {bytes : List UInt8}
    {actions bindings : List UInt8}
    (hactions : Encodes actions ((actionsByTag p).entries.map fun e ↦ (e.1, [e.2])))
    (hbindings : Encodes bindings (Action.all.map fun a ↦
      (actionToTag a, [encodeBinding ((p.actionBinding.get? a).getD .software)])))
    (henc : Encodes bytes ((contents version p actions bindings).filter fun c ↦ keep c.1))
    {q : Policy} :
    decode version bytes = .ok q ↔
      (∀ tag ∈ requiredTags version, keep tag = true) ∧ q = withKept keep p := by
  have hfold : decode version bytes =
      ((contents version p actions bindings).foldlM (keptStep version keep) Reading.start >>=
        fun acc ↦ checkSeen version acc >>= fun _ ↦ .ok acc.policy) := by
    rw [decode, henc.foldFields, foldlM_fieldsOf decodeStep_span, List.foldlM_filter]
    rfl
  rw [hfold, contents, List.foldlM_append, foldlM_keptStep hp keep hactions, Except.ok_bind]
  -- the bindings of the actions came with a later version
  by_cases hversion : firstActionBindingVersion ≤ version
  · have hdecode := decodeActionBinding_encode hp hbindings (q := readKept keep p) rfl
    have h₇ : keptStep version keep ⟨readKept keep p, keep 1, keep 2, keep 3, keep 4, false⟩
        (7, bindings) = .ok ⟨{ readKept keep p with
          actionBinding := if keep 7 then p.actionBinding else ∅ },
          keep 1, keep 2, keep 3, keep 4, keep 7⟩ := by
      rw [keptStep]
      cases keep 7
      · rfl
      · simp only [if_true, decodeStep, if_pos hversion, hdecode, Except.ok_bind]
    rw [if_pos hversion, List.foldlM_cons, h₇]
    simp only [Except.ok_bind, Except.foldlM_nil, check_bind_eq_ok_iff, checkSeen_eq_ok_iff,
      Except.ok.injEq, mem_requiredTags, hversion, true_implies]
    refine and_congr_right fun hkept ↦ ?_
    obtain ⟨h₁, h₂, h₃, h₄, h₇⟩ := hkept
    rw [← readKept_eq h₁ h₂ h₃ h₄, if_pos h₇]
    exact eq_comm
  · have hnone : p.actionBinding = ∅ :=
      BTreeMap.ext_get? fun a ↦ hp.versioned (not_le.mp hversion) a
    rw [if_neg hversion]
    simp only [Except.ok_bind, Except.foldlM_nil, check_bind_eq_ok_iff, checkSeen_eq_ok_iff,
      Except.ok.injEq, mem_requiredTags, hversion, false_implies]
    refine and_congr_right fun hkept ↦ ?_
    obtain ⟨h₁, h₂, h₃, h₄, -⟩ := hkept
    rw [← readKept_eq h₁ h₂ h₃ h₄, hnone]
    exact eq_comm

/-! ### When a missing field makes a policy weaker -/

/-- A limit of one open is stricter than every limit but zero. -/
theorem checkOpens_of_one {limit : Option UInt32} (hlimit : limit ≠ some 0) {opens : UInt32}
    (h : checkOpens (some opensWhenTheFieldIsAbsent) opens = .ok ()) :
    checkOpens limit opens = .ok () := by
  rcases limit with - | limit
  · rfl
  · simp only [checkOpens, refuseIf_eq_ok_iff, not_le] at h ⊢
    have hone : (opensWhenTheFieldIsAbsent : UInt32).toNat = 1 := rfl
    have hpos : limit.toNat ≠ 0 := fun hzero ↦
      hlimit (congrArg some (UInt32.toNat_inj.mp hzero))
    rw [UInt32.lt_iff_toNat_lt] at h ⊢
    omega

/-- The same policy with another limit of opens and another watermark. -/
def withModifiers (p : Policy) (limit : Option UInt32) (mark : Bool) : Policy :=
  { p with maxOpens := limit, watermark := mark }

/-- Under every profile the stricter modifiers are the stricter policy. -/
theorem stricter_composed {limit : Option UInt32} {mark : Bool}
    (hlimit : ∀ opens, checkOpens limit opens = .ok () → checkOpens p.maxOpens opens = .ok ())
    (hmark : p.watermark = true → mark = true) (lease : LeaseFacts) :
    Stricter (composed (withModifiers p limit mark) (some lease)) (composed p (some lease)) ∧
      (composed (withModifiers p limit mark) (some lease)).network =
        (composed p (some lease)).network := by
  rcases hs : lease.serverPolicy with - | server
  · simp only [composed, Option.bind_some, hs, Option.map_none, Option.getD_none]
    exact ⟨⟨fun _ h ↦ h, fun _ ↦ le_rfl, fun _ h ↦ h, hlimit, fun _ h ↦ h, hmark⟩, rfl⟩
  · simp only [composed, Option.bind_some, hs, Option.map_some, Option.getD_some]
    refine ⟨⟨fun _ h ↦ h, fun _ ↦ le_rfl, fun _ h ↦ h, fun opens h ↦ ?_, fun _ h ↦ h, fun h ↦ ?_⟩,
      rfl⟩
    · obtain ⟨hq, hserver⟩ := checkOpens_tightenMaxOpens_iff.mp h
      exact checkOpens_tightenMaxOpens_iff.mpr ⟨hlimit opens hq, hserver⟩
    · rcases Bool.or_eq_true_iff.mp h with h | h
      · exact Bool.or_eq_true_iff.mpr (Or.inl (hmark h))
      · exact Bool.or_eq_true_iff.mpr (Or.inr h)

/-- **Stricter modifiers make a policy no weaker.** -/
theorem noWeaker_withModifiers {limit : Option UInt32} {mark : Bool}
    (hlimit : ∀ opens, checkOpens limit opens = .ok () → checkOpens p.maxOpens opens = .ok ())
    (hmark : p.watermark = true → mark = true) : (withModifiers p limit mark).NoWeaker p := by
  intro lease action ctx o h
  rcases lease with - | lease
  · exact absurd h (evaluate_none_ne_allow _ _ _ _)
  obtain ⟨hadmits, rfl⟩ := evaluate_eq_allow_iff.mp h
  obtain ⟨hstricter, hnetwork⟩ := stricter_composed hlimit hmark lease
  exact ⟨_, evaluate_eq_allow_iff.mpr ⟨hadmits.of_stricter hstricter
    (hnetwork ▸ hadmits.network) (hnetwork ▸ hadmits.offline), rfl⟩, hstricter.obligationsOf⟩

/-- Something could be allowed under `p` if its limit of opens were not in the way. -/
def Grantable (p : Policy) : Prop :=
  (∀ tag, tag ∉ p.unknownActions) ∧ (∃ action, p.rule action = .allow) ∧
    ∀ notBefore notAfter, p.validity = .window notBefore notAfter → notBefore ≤ notAfter

/-- What is allowed could be allowed. -/
theorem grantable_of_evaluate {lease : Option LeaseFacts} {action : Action} {ctx : Context}
    {o : Obligations} (h : evaluate p lease action ctx = .allow o) : Grantable p := by
  rcases lease with - | lease
  · exact absurd h (evaluate_none_ne_allow _ _ _ _)
  have hadmits := (evaluate_eq_allow_iff.mp h).1
  have hstricter : Stricter (composed p (some lease)) p := by
    rcases hs : lease.serverPolicy with - | server
    · simp only [composed, Option.bind_some, hs, Option.map_none, Option.getD_none]
      exact ⟨fun _ h ↦ h, fun _ ↦ le_rfl, fun _ h ↦ h, fun _ h ↦ h, fun _ h ↦ h, fun h ↦ h⟩
    · simp only [composed, Option.bind_some, hs, Option.map_some, Option.getD_some]
      exact stricter_intersect p server
  refine ⟨fun tag htag ↦ hadmits.understood tag (hstricter.understood tag htag),
    ⟨action, hstricter.rule action hadmits.rule⟩, fun notBefore notAfter hwindow ↦ ?_⟩
  have hvalid := hstricter.validity ctx hadmits.validity
  simp only [hwindow, checkValidity, check_bind_eq_ok_iff, refuseIf_eq_ok_iff, not_lt] at hvalid
  exact hvalid.1.trans hvalid.2

/-- A moment inside the validity period, if it has one. -/
def someMoment : Validity → Timestamp
  | .window notBefore _ => notBefore
  | _ => 0

/-- A lease of that moment for an attested device, with a profile that asks for the network. -/
def grantingLease (p : Policy) : LeaseFacts :=
  { leaseFor 0 with
    issuedAt := someMoment p.validity
    expiresAt := someMoment p.validity
    serverPolicy := some strictProfile
    attested := some .vendorCertificate }

/-- The device at that moment, before its first open. -/
def grantingContext (p : Policy) : Context :=
  { onlineContext with
    now := someMoment p.validity
    monotonicFloor := someMoment p.validity
    device := ⟨List.Vector.replicate 32 0, .hardwareAttested, .absent⟩ }

theorem checkValidity_grantingContext
    (hwindow : ∀ notBefore notAfter, p.validity = .window notBefore notAfter →
      notBefore ≤ notAfter) : checkValidity p.validity (grantingContext p) = .ok () := by
  rcases hv : p.validity with - | ⟨notBefore, notAfter⟩ | seconds
  · rfl
  · have hnow : (grantingContext p).now = notBefore := by
      show someMoment p.validity = notBefore
      rw [hv]
      rfl
    simp only [checkValidity, check_bind_eq_ok_iff, refuseIf_eq_ok_iff, not_lt, hnow, le_refl,
      true_and]
    exact hwindow notBefore notAfter hv
  · rfl

/-- **What could be allowed is allowed** to that device at its first open. -/
theorem evaluate_of_grantable (hp : Grantable p)
    (hopens : checkOpens p.maxOpens 0 = .ok ()) :
    ∃ action o, evaluate p (some (grantingLease p)) action (grantingContext p) = .allow o := by
  obtain ⟨hunknown, ⟨action, hrule⟩, hwindow⟩ := hp
  have hnetwork : tightenNetwork p.network strictProfile.network = .strictOnline := by
    cases p.network <;> rfl
  refine ⟨action, _, evaluate_eq_allow_iff.mpr ⟨?_, rfl⟩⟩
  show Admits (intersect p strictProfile) _ _ _
  -- the strictest context that there is, and a lease that has just been issued
  exact {
    understood := fun tag htag ↦ by
      rcases BTreeSet.mem_union.mp htag with htag | htag
      · exact hunknown tag htag
      · exact BTreeSet.not_mem_empty tag htag
    floor := le_rfl
    binding := Binding.le_hardwareAttested _
    identity := by rfl
    tpmClock := rfl
    issued := by
      show refuseIf (maxClockSkewSeconds <
        (someMoment p.validity).saturatingSub (someMoment p.validity)) _ = _
      rw [Int64.saturatingSub_self]
      rfl
    network := by
      show checkNetwork (tightenNetwork p.network _) _ _ = _
      rw [hnetwork]
      rfl
    hardwareElapsed := rfl
    expiry := refuseIf_eq_ok_iff.mpr (lt_irrefl _)
    offline := by
      show checkOffline (tightenNetwork p.network _) _ _ = _
      rw [hnetwork]
      rfl
    validity := by
      show checkValidity (tightenValidity p.validity .always) _ = _
      rw [tightenValidity_always]
      exact checkValidity_grantingContext hwindow
    opens := checkOpens_tightenMaxOpens_iff.mpr ⟨hopens, rfl⟩
    budget := rfl
    rule := (rule_intersect_eq_allow_iff p strictProfile).mpr ⟨hrule, by cases action <;> rfl⟩ }

/-- A policy whose limit is zero allows nothing. -/
theorem evaluate_ne_allow_of_zero (hzero : p.maxOpens = some 0) (lease : Option LeaseFacts)
    (action : Action) (ctx : Context) (o : Obligations) :
    evaluate p lease action ctx ≠ .allow o := by
  intro h
  rcases lease with - | lease
  · exact absurd h (evaluate_none_ne_allow _ _ _ _)
  have hopens := (evaluate_eq_allow_iff.mp h).1.opens
  have hauthor : checkOpens p.maxOpens ctx.opensSoFar = .ok () := by
    rcases hs : lease.serverPolicy with - | server
    · simpa only [composed, Option.bind_some, hs, Option.map_none, Option.getD_none] using hopens
    · simp only [composed, Option.bind_some, hs, Option.map_some, Option.getD_some] at hopens
      exact (checkOpens_tightenMaxOpens_iff.mp hopens).1
  simp only [hzero, checkOpens, refuseIf_eq_ok_iff, not_le] at hauthor
  exact absurd hauthor (by simp [UInt32.lt_iff_toNat_lt])

/-- **A missing limit of opens weakens exactly a policy of no opens** that could otherwise allow
something; a missing watermark weakens nothing. -/
theorem noWeaker_withKept_iff (keep : UInt16 → Bool) :
    (withKept keep p).NoWeaker p ↔
      ¬(keep Tag.maxOpens = false ∧ p.maxOpens = some 0 ∧ Grantable p) := by
  constructor
  · rintro hweak ⟨hkeep, hzero, hgrant⟩
    have hlimit : (withKept keep p).maxOpens = some opensWhenTheFieldIsAbsent := by
      simp [withKept, hkeep]
    -- the lease and the context do not depend on the modifiers
    obtain ⟨action, o, hallow⟩ := evaluate_of_grantable (p := withKept keep p) hgrant
      (by rw [hlimit]; rfl)
    obtain ⟨o', ho', -⟩ := hweak _ _ _ _ hallow
    exact evaluate_ne_allow_of_zero hzero _ _ _ _ ho'
  · intro hnot
    have hmark : p.watermark = true →
        (if keep Tag.watermark then p.watermark else true) = true := by
      intro h
      simp [h]
    by_cases hkeep : keep Tag.maxOpens = true
    · refine noWeaker_withModifiers (fun opens h ↦ ?_) hmark
      rwa [if_pos hkeep] at h
    · by_cases hzero : p.maxOpens = some 0
      · intro lease action ctx o h
        have hgrant : Grantable p := grantable_of_evaluate (p := withKept keep p) h
        exact absurd ⟨by simpa using hkeep, hzero, hgrant⟩ hnot
      · refine noWeaker_withModifiers (fun opens h ↦ ?_) hmark
        rw [if_neg hkeep] at h
        exact checkOpens_of_one hzero h

theorem grantable_normal_iff (hunknown : ∀ tag ∈ p.unknownActions, ¬(1 ≤ tag ∧ tag ≤ 6)) :
    Grantable (normal version p) ↔ Grantable p := by
  have hrule : ∀ action, (normal version p).rule action = p.rule action := rule_dropVacuous p
  have htags : ∀ tag, tag ∈ (normal version p).unknownActions ↔ tag ∈ p.unknownActions := by
    intro tag
    rw [mem_unknownActions_normal]
    exact ⟨fun h ↦ h.1, fun h ↦ ⟨h, tagToAction_eq_none_iff.mpr (hunknown tag h)⟩⟩
  simp only [Grantable, hrule, htags]
  rfl

/-- **Exactly when a missing field weakens a policy.** Of the fields of an encoded policy, whatever
is kept is refused or read as a policy no weaker than the whole, unless all required fields are
kept, the limit of opens is not, and it was zero in a policy that could allow something. -/
theorem absent_field_never_weakens_iff (version : UInt16) (p : Policy)
    (hunknown : ∀ tag ∈ p.unknownActions, ¬(1 ≤ tag ∧ tag ≤ 6)) :
    ∃ bytes full fields, encode version p = .ok bytes ∧ decode version bytes = .ok full ∧
      TlvReader.readAll bytes = .ok fields ∧
      ∀ kept : Contents, kept.Sublist (fields.map fun f ↦ (f.tag, f.value)) →
        ((∀ q, decode version (encodeContents kept) = .ok q → q.NoWeaker full) ↔
          ¬((∀ tag ∈ requiredTags version, tag ∈ kept.map Prod.fst) ∧
            Tag.maxOpens ∉ kept.map Prod.fst ∧ p.maxOpens = some 0 ∧ Grantable p)) := by
  have hnormal := isNormal_normal version p
  obtain ⟨actions, hactions, -, hactionsEnc⟩ := exists_encodeActions (normal version p)
  obtain ⟨bindings, hbindings, -, hbindingsEnc⟩ := exists_encodeActionBinding (normal version p)
  obtain ⟨bytes, hencode, -, hdecode⟩ := decode_encode_normal version p
  have henc : Encodes bytes (contents version (normal version p) actions bindings) := by
    rw [← TlvWriter.writeAll_eq_ok_iff, ← encode_eq_writeAll hactions hbindings, encode_normal,
      hencode]
  refine ⟨bytes, normal version p, _, hencode, hdecode, henc.readAll, fun kept hsub ↦ ?_⟩
  rw [map_fieldsOf] at hsub
  have htags := henc.increasing
  -- the records that are left are those whose tags are left
  have hfilter := eq_filter_of_sublist hsub (htags.imp fun h ↦ h.ne)
  have hkept : Encodes (encodeContents kept)
      ((contents version (normal version p) actions bindings).filter fun c ↦
        decide (c.1 ∈ kept.map Prod.fst)) := by
    rw [← hfilter]
    exact henc.of_sublist hsub
  have hread := fun q ↦ decode_filter (q := q) hnormal (fun tag ↦ decide (tag ∈ kept.map Prod.fst))
    hactionsEnc hbindingsEnc hkept
  have hweak := noWeaker_withKept_iff (p := normal version p)
    fun tag ↦ decide (tag ∈ kept.map Prod.fst)
  simp only [decide_eq_true_eq] at hread
  rw [grantable_normal_iff hunknown, decide_eq_false_iff_not] at hweak
  constructor
  · rintro hall ⟨hrequired, hbad⟩
    exact hweak.mp (hall _ ((hread _).mpr ⟨hrequired, rfl⟩)) hbad
  · intro hnot q hq
    obtain ⟨hrequired, rfl⟩ := (hread q).mp hq
    exact hweak.mpr fun hbad ↦ hnot ⟨hrequired, hbad⟩

/-- A policy that lets the file be viewed, but never opened. -/
def noOpensPolicy : Policy := { Policy.denyAll.allow .view with maxOpens := some 0 }

/-- Its bytes. -/
def noOpensBytes : List UInt8 := (encode 5 noOpensPolicy).toOption.getD []

/-- Its fields without the limit of opens. -/
def noOpensKept : Contents :=
  (((TlvReader.readAll noOpensBytes).toOption.getD []).map fun f ↦ (f.tag, f.value)).filter
    fun c ↦ c.1 ≠ Tag.maxOpens

/-- Without its limit, a policy of no opens permits one. -/
theorem absent_limit_weakens_noOpensPolicy :
    encode 5 noOpensPolicy = .ok noOpensBytes ∧
      (TlvReader.readAll noOpensBytes).map (List.map fun f ↦ (f.tag, f.value)) =
        .ok (noOpensKept.take 4 ++ (Tag.maxOpens, [0, 0, 0, 0]) :: noOpensKept.drop 4) ∧
      noOpensKept.Sublist
        (noOpensKept.take 4 ++ (Tag.maxOpens, [0, 0, 0, 0]) :: noOpensKept.drop 4) ∧
      (decode 5 noOpensBytes).map
          (fun full ↦ evaluate full (some (leaseFor 3600)) .view onlineContext) =
        .ok (.deny .openLimitReached) ∧
      (decode 5 (encodeContents noOpensKept)).map
          (fun q ↦ evaluate q (some (leaseFor 3600)) .view onlineContext) =
        .ok (.allow ⟨false, true, true⟩) := by
  refine ⟨by decide +kernel, by decide +kernel, ?_, by decide +kernel, by decide +kernel⟩
  conv_lhs => rw [← List.take_append_drop 4 noOpensKept]
  exact (List.Sublist.refl _).append (List.sublist_cons_self _ _)

/-- The law at a policy of three opens, whose limit and watermark are missing. -/
theorem absent_field_never_weakens_three_opens :
    ∃ bytes full fields,
      encode 5 { noOpensPolicy with maxOpens := some 3 } = .ok bytes ∧
      decode 5 bytes = .ok full ∧ TlvReader.readAll bytes = .ok fields ∧
      ∀ q, decode 5 (encodeContents ((fields.map fun f ↦ (f.tag, f.value)).filter
        fun c ↦ c.1 ≠ 5 ∧ c.1 ≠ 6)) = .ok q → q.NoWeaker full := by
  obtain ⟨bytes, full, fields, hencode, hdecode, hfields, hiff⟩ :=
    absent_field_never_weakens_iff 5 { noOpensPolicy with maxOpens := some 3 }
      fun tag htag ↦ absurd htag (BTreeSet.not_mem_empty tag)
  refine ⟨bytes, full, fields, hencode, hdecode, hfields, (hiff _ List.filter_sublist).mpr ?_⟩
  rintro ⟨-, -, hzero, -⟩
  exact absurd hzero (by decide)

end Missing

end Format.PolicyCodec

end OpenCrate
