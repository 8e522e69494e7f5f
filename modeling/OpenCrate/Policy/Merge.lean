import OpenCrate.Policy.Tightening

/-!
# Merging policies

Policies of several authors are merged on different machines and in different orders. `intersect` makes the
same policy of them: it is commutative and associative, and merging a policy with itself, or with a profile
that tightens nothing, changes nothing except that explicit denials are no longer written down.

Every field is merged on its own. The maps are compared by their entries, and an entry of a merged map is
`Option.merge` of the two entries.
-/

namespace OpenCrate

/-! ### One field at a time -/

/-- A merge allows what both allow, and keeps no denials. -/
theorem get?_actions_intersect (p q : Policy) (action : Action) :
    (intersect p q).actions.get? action =
      if p.rule action = .allow ∧ q.rule action = .allow then some .allow else none := by
  simp only [rule_eq_allow_iff, intersect, BTreeMap.get?_retain]
  rcases p.actions.get? action with - | r <;> rcases q.actions.get? action with - | r'
  · rfl
  · rfl
  · simp
  · cases r <;> cases r' <;> simp

/-- The stronger binding is kept, or the only one. -/
theorem get?_actionBinding_intersect (p q : Policy) (action : Action) :
    (intersect p q).actionBinding.get? action =
      (p.actionBinding.get? action).merge max (q.actionBinding.get? action) := by
  rw [intersect, BTreeMap.get?_mergeWith]
  rcases q.actionBinding.get? action with - | b
  · rw [Option.merge_none_right]
  · rcases p.actionBinding.get? action with - | a
    · exact congrArg some (max_self b)
    · rfl

/-- The smaller limit is kept, or the only one. -/
theorem tightenMaxOpens_eq (a b : Option UInt32) : tightenMaxOpens a b = a.merge min b := by
  cases a <;> cases b <;> rfl

/-- A window that starts after it ends absorbs every other period. -/
theorem tightenValidity_impossible (v : Validity) : tightenValidity impossible v = impossible := by
  cases v with
  | always => rfl
  | window a b =>
    rw [impossible, tightenValidity, max_eq_left (Int64.le_maxValue a), min_eq_left (Int64.minValue_le b)]
  | fromFirstOpen a => rfl

/-- The parts of a merge are commutative, associative and idempotent, and so is the merge. -/
theorem tightenValidity_comm (v w : Validity) : tightenValidity v w = tightenValidity w v := by
  cases v <;> cases w <;> simp [tightenValidity, max_comm, min_comm]

theorem tightenValidity_assoc (u v w : Validity) :
    tightenValidity (tightenValidity u v) w = tightenValidity u (tightenValidity v w) := by
  have hright : ∀ v, impossible = tightenValidity v impossible := fun v ↦
    ((tightenValidity_comm v impossible).trans (tightenValidity_impossible v)).symm
  cases u with
  | always => cases v <;> cases w <;> rfl
  | window a b =>
    cases v with
    | always => cases w <;> rfl
    | window c d =>
      cases w with
      | always => rfl
      | window e f => simp only [tightenValidity, max_assoc, min_assoc]
      | fromFirstOpen e => exact hright (.window a b)
    | fromFirstOpen c =>
      cases w with
      | always => rfl
      | window e f => exact (tightenValidity_impossible (.window e f)).trans (hright (.window a b))
      | fromFirstOpen e => rfl
  | fromFirstOpen a =>
    cases v with
    | always => cases w <;> rfl
    | window c d =>
      cases w with
      | always => rfl
      | window e f => exact tightenValidity_impossible (.window e f)
      | fromFirstOpen e => rfl
    | fromFirstOpen c =>
      cases w with
      | always => rfl
      | window e f => rfl
      | fromFirstOpen e => simp only [tightenValidity, min_assoc]

theorem tightenValidity_self (v : Validity) : tightenValidity v v = v := by
  cases v <;> simp [tightenValidity]

/-- The network is a minimum, too. -/
theorem tightenNetwork_comm (m n : Network) : tightenNetwork m n = tightenNetwork n m := by
  cases m <;> cases n <;> simp [tightenNetwork, min_comm]

theorem tightenNetwork_assoc (l m n : Network) :
    tightenNetwork (tightenNetwork l m) n = tightenNetwork l (tightenNetwork m n) := by
  cases l <;> cases m <;> cases n <;> simp [tightenNetwork, min_assoc]

theorem tightenNetwork_self (n : Network) : tightenNetwork n n = n := by
  cases n <;> simp [tightenNetwork]

/-! ### Whole policies -/

/-- Policies with the same entries and the same other fields are equal. -/
theorem Policy.ext_fields {p q : Policy} (hactions : ∀ a, p.actions.get? a = q.actions.get? a)
    (hvalidity : p.validity = q.validity) (hopens : p.maxOpens = q.maxOpens) (hnetwork : p.network = q.network)
    (hbinding : p.minBinding = q.minBinding)
    (hactionBinding : ∀ a, p.actionBinding.get? a = q.actionBinding.get? a)
    (hwatermark : p.watermark = q.watermark) (hunknown : ∀ k, k ∈ p.unknownActions ↔ k ∈ q.unknownActions) :
    p = q := by
  obtain ⟨actions, validity, opens, network, binding, actionBinding, watermark, unknown⟩ := p
  obtain ⟨actions', validity', opens', network', binding', actionBinding', watermark', unknown'⟩ := q
  obtain rfl : actions = actions' := BTreeMap.ext_get? hactions
  obtain rfl : actionBinding = actionBinding' := BTreeMap.ext_get? hactionBinding
  obtain rfl : unknown = unknown' := BTreeSet.ext_mem hunknown
  cases hvalidity
  cases hopens
  cases hnetwork
  cases hbinding
  cases hwatermark
  rfl

/-- **A merge does not depend on the order.** -/
theorem intersect_comm (p q : Policy) : intersect p q = intersect q p := by
  refine Policy.ext_fields (fun a ↦ ?_) (tightenValidity_comm _ _) ?_ (tightenNetwork_comm _ _) (max_comm _ _)
    (fun a ↦ ?_) (Bool.or_comm _ _) (fun k ↦ ?_)
  · rw [get?_actions_intersect, get?_actions_intersect]
    simp only [and_comm]
  · show tightenMaxOpens _ _ = tightenMaxOpens _ _
    rw [tightenMaxOpens_eq, tightenMaxOpens_eq]
    exact Std.Commutative.comm _ _
  · rw [get?_actionBinding_intersect, get?_actionBinding_intersect]
    exact Std.Commutative.comm _ _
  · exact BTreeSet.mem_union.trans (or_comm.trans BTreeSet.mem_union.symm)

/-- **Nor on the grouping.** -/
theorem intersect_assoc (p q r : Policy) : intersect (intersect p q) r = intersect p (intersect q r) := by
  refine Policy.ext_fields (fun a ↦ ?_) (tightenValidity_assoc _ _ _) ?_ (tightenNetwork_assoc _ _ _)
    (max_assoc _ _ _) (fun a ↦ ?_) (Bool.or_assoc _ _ _) (fun k ↦ ?_)
  · simp only [get?_actions_intersect, rule_intersect_eq_allow_iff, and_assoc]
  · show tightenMaxOpens (tightenMaxOpens _ _) _ = tightenMaxOpens _ (tightenMaxOpens _ _)
    simp only [tightenMaxOpens_eq]
    exact Std.Associative.assoc _ _ _
  · rw [get?_actionBinding_intersect, get?_actionBinding_intersect, get?_actionBinding_intersect,
      get?_actionBinding_intersect]
    exact Std.Associative.assoc _ _ _
  · show k ∈ (p.unknownActions.union q.unknownActions).union r.unknownActions ↔
      k ∈ p.unknownActions.union (q.unknownActions.union r.unknownActions)
    simp only [BTreeSet.mem_union, or_assoc]

/-- The policy without its explicit denials, which deny nothing more than a missing entry does. -/
def Policy.withoutDenials (p : Policy) : Policy :=
  { p with actions := p.actions.retain fun _ rule ↦ rule = .allow }

/-- A denial and no entry are the same to a decision. -/
theorem get?_actions_withoutDenials (p : Policy) (action : Action) :
    p.withoutDenials.actions.get? action = if p.rule action = .allow then some .allow else none := by
  simp only [rule_eq_allow_iff, Policy.withoutDenials, BTreeMap.get?_retain]
  rcases p.actions.get? action with - | r
  · rfl
  · cases r <;> rfl

/-- **A policy merged with itself is itself, without its denials.** -/
theorem intersect_self (p : Policy) : intersect p p = p.withoutDenials := by
  refine Policy.ext_fields (fun a ↦ ?_) (tightenValidity_self _) ?_ (tightenNetwork_self _) (max_self _)
    (fun a ↦ ?_) (Bool.or_self _) (fun k ↦ BTreeSet.mem_union.trans or_self_iff)
  · simp only [get?_actions_intersect, get?_actions_withoutDenials, and_self]
  · show tightenMaxOpens _ _ = _
    rw [tightenMaxOpens_eq]
    exact Std.IdempotentOp.idempotent _
  · rw [get?_actionBinding_intersect]
    exact Std.IdempotentOp.idempotent _

theorem rule_noTightening (action : Action) : Policy.noTightening.rule action = .allow := by
  cases action <;> decide

/-- The policy that tightens nothing is neutral, up to the denials. -/
theorem intersect_noTightening (p : Policy) : intersect p .noTightening = p.withoutDenials := by
  refine Policy.ext_fields (fun a ↦ ?_) (tightenValidity_always _) ?_ ?_
    (max_eq_left (Binding.software_le _)) (fun a ↦ ?_) (Bool.or_false _) (fun k ↦ ?_)
  · rw [get?_actions_intersect, get?_actions_withoutDenials]
    simp only [rule_noTightening, and_true]
  · show tightenMaxOpens _ none = _
    rw [tightenMaxOpens_eq, Option.merge_none_right]
    rfl
  · show tightenNetwork _ (.lease Int64.maxValue Int64.maxValue) = _
    rw [Policy.withoutDenials]
    cases p.network with
    | strictOnline => rfl
    | lease seconds maxOfflineSeconds => simp [tightenNetwork]
  · rw [get?_actionBinding_intersect]
    exact Option.merge_none_right
  · exact BTreeSet.mem_union.trans (or_iff_left (BTreeSet.not_mem_empty k))

/-- **Merging policies is an algebra.** The order of a merge does not matter, nor how it is grouped; and a
policy merged with itself or with a profile that tightens nothing is the policy without its explicit
denials. -/
theorem intersect_merges (p q r : Policy) :
    intersect p q = intersect q p ∧ intersect (intersect p q) r = intersect p (intersect q r) ∧
      intersect p p = p.withoutDenials ∧ intersect p .noTightening = p.withoutDenials :=
  ⟨intersect_comm p q, intersect_assoc p q r, intersect_self p, intersect_noTightening p⟩

end OpenCrate
