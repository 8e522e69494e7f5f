import OpenCrate.Format.PolicyMeaning

/-!
# Actions the client does not know

A policy names actions in two fields: their permissions, and the binding they require. An action whose
number the client does not know is recorded from the first field and passed over in the second, which
relies on its being named in the first as well (`decodeActionBindingStep`). The reader does not check
that it is. `unknown_actions_kept_iff` says what follows: a policy with an unknown action is never taken
for understood exactly if its binding field names no unknown action that the permissions do not name.
-/

namespace OpenCrate.Format.PolicyCodec

/-- A field of the policy names an action by its number. -/
def Names (field : UInt16) (bytes : List UInt8) (action : UInt16) : Prop :=
  ∃ l value m, Encodes bytes l ∧ (field, value) ∈ l ∧ Encodes value m ∧ action ∈ m.map Prod.fst

/-- The action is kept as an unknown one: it is recorded, it denies everything, and it is written again. -/
structure Kept (version : UInt16) (p : Policy) (action : UInt16) : Prop where
  mem : action ∈ p.unknownActions
  denied : ∀ lease known ctx, ∃ unknown,
    evaluate p lease known ctx = .deny (.policyNotFullyUnderstood unknown)
  survives : ∃ bytes, encode version p = .ok bytes ∧ decode version bytes = .ok p ∧
    Names Tag.actions bytes action

variable {version : UInt16} {action : UInt16}

/-! ### What is recorded -/

/-- Of the field of the actions, the reader remembers every tag that it does not know. -/
theorem mem_unknownActions_of_decodeActionsStep {p q : Policy} {field : Field}
    (h : decodeActionsStep p field = .ok q) :
    action ∈ q.unknownActions ↔
      action ∈ p.unknownActions ∨ tagToAction action = none ∧ action = field.tag := by
  obtain ⟨ruleByte, -, h⟩ := Except.bind_eq_ok_iff.mp h
  split at h
  · next known hknown =>
    have hq : q.unknownActions = p.unknownActions := by
      split_ifs at h <;> obtain rfl := Except.ok.inj h <;> rfl
    rw [hq]
    refine (or_iff_left ?_).symm
    rintro ⟨hnone, rfl⟩
    rw [hknown] at hnone
    cases hnone
  · next hnone =>
    obtain rfl := Except.ok.inj h
    rw [BTreeSet.mem_insert, or_comm]
    exact or_congr_right ⟨fun heq ↦ ⟨heq ▸ hnone, heq⟩, And.right⟩

theorem mem_unknownActions_of_foldlM {l : Contents} {offset : ℕ} {p q : Policy}
    (h : (fieldsOf offset l).foldlM decodeActionsStep p = .ok q) :
    action ∈ q.unknownActions ↔
      action ∈ p.unknownActions ∨ tagToAction action = none ∧ action ∈ l.map Prod.fst := by
  induction l generalizing offset p with
  | nil =>
    obtain rfl := Except.ok.inj h
    simp
  | cons entry l ih =>
    obtain ⟨p₁, hstep, hrest⟩ := Except.bind_eq_ok_iff.mp h
    rw [ih hrest, mem_unknownActions_of_decodeActionsStep hstep, or_assoc, ← and_or_left, List.map_cons,
      List.mem_cons]

/-- The permissions record the unknown actions they name. -/
theorem mem_unknownActions_of_decodeActions {value : List UInt8} {p q : Policy}
    (h : decodeActions value p = .ok q) :
    action ∈ q.unknownActions ↔ action ∈ p.unknownActions ∨
      tagToAction action = none ∧ ∃ m, Encodes value m ∧ action ∈ m.map Prod.fst := by
  obtain ⟨m, henc, hfold⟩ := exists_encodes_of_foldFields h
  rw [mem_unknownActions_of_foldlM hfold]
  refine or_congr_right (and_congr_right fun _ ↦ ⟨fun hmem ↦ ⟨m, henc, hmem⟩, ?_⟩)
  rintro ⟨m', henc', hmem⟩
  rwa [henc.unique henc']

/-- The binding requirements record none. -/
theorem unknownActions_of_decodeActionBinding {value : List UInt8} {p q : Policy}
    (h : decodeActionBinding value p = .ok q) : q.unknownActions = p.unknownActions := by
  obtain ⟨m, -, hfold⟩ := exists_encodes_of_foldFields h
  refine Except.foldlM_invariant (P := fun q ↦ q.unknownActions = p.unknownActions) hfold rfl ?_
  intro field _ c c' hc hstep
  simp only [decodeActionBindingStep, Except.bind_eq_ok_iff] at hstep
  obtain ⟨value, -, binding, -, hstep⟩ := hstep
  split_ifs at hstep
  · obtain rfl := Except.ok.inj hstep
    exact hc
  · split at hstep <;> obtain rfl := Except.ok.inj hstep <;> exact hc

/-- The same field by field of the policy. -/
theorem mem_unknownActions_of_decodeStep {acc acc' : Reading} {field : Field}
    (h : decodeStep version acc field = .ok acc') :
    action ∈ acc'.policy.unknownActions ↔ action ∈ acc.policy.unknownActions ∨
      tagToAction action = none ∧ field.tag = Tag.actions ∧
        ∃ m, Encodes field.value m ∧ action ∈ m.map Prod.fst := by
  rw [decodeStep] at h
  split at h
  -- the field of the actions is the only one that adds to them
  case h_1 htag =>
    obtain ⟨policy, hpolicy, h⟩ := Except.bind_eq_ok_iff.mp h
    obtain rfl := Except.ok.inj h
    rw [mem_unknownActions_of_decodeActions hpolicy]
    exact or_congr_right (and_congr_right fun _ ↦ (and_iff_right htag).symm)
  case h_4 htag =>
    simp only [Except.bind_eq_ok_iff] at h
    obtain ⟨value, -, binding, -, h⟩ := h
    obtain rfl := Except.ok.inj h
    exact (or_iff_left fun hactions ↦ absurd (htag.symm.trans hactions.2.1) (by decide)).symm
  case h_7 htag =>
    split_ifs at h
    obtain ⟨policy, hpolicy, h⟩ := Except.bind_eq_ok_iff.mp h
    obtain rfl := Except.ok.inj h
    rw [or_iff_left fun hactions ↦ absurd (htag.symm.trans hactions.2.1) (by decide)]
    simp only [unknownActions_of_decodeActionBinding hpolicy]
  case h_8 => cases h
  all_goals
    next htag =>
      obtain ⟨value, -, h⟩ := Except.bind_eq_ok_iff.mp h
      obtain rfl := Except.ok.inj h
      exact (or_iff_left fun hactions ↦ absurd (htag.symm.trans hactions.2.1) (by decide)).symm

theorem mem_unknownActions_of_foldlM_decodeStep {l : Contents} {offset : ℕ} {acc acc' : Reading}
    (h : (fieldsOf offset l).foldlM (decodeStep version) acc = .ok acc') :
    action ∈ acc'.policy.unknownActions ↔ action ∈ acc.policy.unknownActions ∨
      tagToAction action = none ∧
        ∃ value m, (Tag.actions, value) ∈ l ∧ Encodes value m ∧ action ∈ m.map Prod.fst := by
  induction l generalizing offset acc with
  | nil =>
    obtain rfl := Except.ok.inj h
    simp
  | cons entry l ih =>
    obtain ⟨tag, value⟩ := entry
    obtain ⟨acc₁, hstep, hrest⟩ := Except.bind_eq_ok_iff.mp h
    rw [ih hrest, mem_unknownActions_of_decodeStep hstep, or_assoc, ← and_or_left]
    refine or_congr_right (and_congr_right fun _ ↦ ?_)
    constructor
    · rintro (⟨rfl, m, henc, hmem⟩ | ⟨v, m, hv, henc, hmem⟩)
      · exact ⟨value, m, List.mem_cons_self, henc, hmem⟩
      · exact ⟨v, m, List.mem_cons_of_mem _ hv, henc, hmem⟩
    · rintro ⟨v, m, hv, henc, hmem⟩
      rcases List.mem_cons.mp hv with heq | hv
      · obtain ⟨rfl, rfl⟩ := Prod.mk.inj heq
        exact .inl ⟨rfl, m, henc, hmem⟩
      · exact .inr ⟨v, m, hv, henc, hmem⟩

/-- **The unknown actions of a policy** are those that its permissions name. -/
theorem mem_unknownActions_iff {bytes : List UInt8} {p : Policy} (h : decode version bytes = .ok p) :
    action ∈ p.unknownActions ↔ tagToAction action = none ∧ Names Tag.actions bytes action := by
  obtain ⟨acc, hloop, h⟩ := Except.bind_eq_ok_iff.mp h
  obtain ⟨-, hok⟩ := Except.check_bind_eq_ok_iff.mp h
  obtain rfl := Except.ok.inj hok
  obtain ⟨l, henc, hfold⟩ := exists_encodes_of_foldFields hloop
  have hstart : action ∉ Reading.start.policy.unknownActions := BTreeSet.not_mem_empty action
  rw [mem_unknownActions_of_foldlM_decodeStep hfold, or_iff_right hstart]
  refine and_congr_right fun _ ↦ ⟨fun ⟨value, m, hvalue, hm, hmem⟩ ↦ ⟨l, value, m, henc, hvalue, hm, hmem⟩, ?_⟩
  rintro ⟨l', value, m, henc', hvalue, hm, hmem⟩
  exact ⟨value, m, henc.unique henc' ▸ hvalue, hm, hmem⟩

/-! ### What follows from it -/

/-- A policy with an unknown action denies everything, whatever a server adds. -/
theorem evaluate_of_mem_unknownActions {p : Policy} (h : action ∈ p.unknownActions)
    (lease : Option LeaseFacts) (known : Action) (ctx : Context) :
    ∃ unknown, evaluate p lease known ctx = .deny (.policyNotFullyUnderstood unknown) := by
  have hmem : action ∈ (composed p lease).unknownActions := by
    rw [composed]
    cases lease.bind LeaseFacts.serverPolicy with
    | none => exact h
    | some server => exact BTreeSet.mem_union.mpr (.inl h)
  obtain ⟨unknown, hunknown⟩ : ∃ unknown, (composed p lease).unknownActions.iter.head? = some unknown := by
    rw [← Option.isSome_iff_exists, Option.isSome_iff_ne_none]
    exact fun hnone ↦ BTreeSet.iter_head?_eq_none_iff.mp hnone action hmem
  refine ⟨unknown, ?_⟩
  have hcheck : checkUnderstood (composed p lease).unknownActions =
      .error (.policyNotFullyUnderstood unknown) := by
    rw [checkUnderstood, hunknown]
  have hdecide : decideAccess p lease known ctx = .error (.policyNotFullyUnderstood unknown) := by
    simp only [decideAccess, hcheck, Except.error_bind]
  rw [evaluate, hdecide]

/-- A recorded action is kept. -/
theorem kept_of_mem {bytes : List UInt8} {p : Policy} (h : decode version bytes = .ok p)
    (hmem : action ∈ p.unknownActions) : Kept version p action := by
  obtain ⟨bytes', hencode, -, hdecode⟩ := decode_encode_normal version p
  rw [normal_of_decode h] at hdecode
  exact ⟨hmem, evaluate_of_mem_unknownActions hmem,
    bytes', hencode, hdecode, ((mem_unknownActions_iff hdecode).mp hmem).2⟩

/-- **When unknown actions are kept.** All unknown actions that a policy names are kept exactly if
those of its binding requirements are among those of its permissions. -/
theorem unknown_actions_kept_iff (version : UInt16) (bytes : List UInt8) (p : Policy)
    (h : decode version bytes = .ok p) :
    (∀ action, ¬(1 ≤ action ∧ action ≤ 6) →
        Names Tag.actions bytes action ∨ Names Tag.actionBinding bytes action → Kept version p action) ↔
      ∀ action, ¬(1 ≤ action ∧ action ≤ 6) → Names Tag.actionBinding bytes action →
        Names Tag.actions bytes action := by
  constructor
  · intro hkept action hunknown hnames
    exact ((mem_unknownActions_iff h).mp (hkept action hunknown (.inr hnames)).mem).2
  · intro hsame action hunknown hnames
    refine kept_of_mem h ((mem_unknownActions_iff h).mpr ⟨tagToAction_eq_none_iff.mpr hunknown, ?_⟩)
    exact hnames.elim id (hsame action hunknown)

/-! ### A policy that is taken for understood -/

/-- The binding requirements of a policy: a hardware key for action 9. -/
def hiddenActionBindings : Contents :=
  [(1, [1]), (2, [1]), (3, [1]), (4, [1]), (5, [1]), (6, [1]), (9, [2])]

/-- Its permissions: the file may be viewed. -/
def hiddenActionRules : Contents := [(1, [1]), (2, [0]), (3, [0]), (4, [0]), (5, [0]), (6, [0])]

/-- The fields of a policy for leases of an hour. -/
def hourContents (rules bindings : Contents) : Contents :=
  [(Tag.actions, encodeContents rules), (Tag.validity, encodeValidity .always),
    (Tag.network, encodeNetwork (.lease 3600 3600)), (Tag.minBinding, [1]), (Tag.maxOpens, []),
    (Tag.watermark, [0]), (Tag.actionBinding, encodeContents bindings)]

theorem mem_hourContents (rules bindings : Contents) :
    (Tag.actionBinding, encodeContents bindings) ∈ hourContents rules bindings := by
  simp only [hourContents, List.mem_cons, true_or, or_true]

/-- Action 9 is named in the binding requirements and not recorded: the file can be viewed. -/
theorem hidden_action_not_kept :
    ¬∀ (version : UInt16) (bytes : List UInt8) (p : Policy), decode version bytes = .ok p →
      ∀ action, ¬(1 ≤ action ∧ action ≤ 6) →
        Names Tag.actions bytes action ∨ Names Tag.actionBinding bytes action → Kept version p action := by
  intro h
  have hallow : (decode 5 (encodeContents (hourContents hiddenActionRules hiddenActionBindings))).map
      (fun p ↦ evaluate p (some (leaseFor 3600)) .view onlineContext) = .ok (.allow ⟨false, true, true⟩) := by
    decide +kernel
  obtain ⟨p, hp, hview⟩ := Except.map_eq_ok_iff.mp hallow
  have hnames : Names Tag.actionBinding
      (encodeContents (hourContents hiddenActionRules hiddenActionBindings)) 9 :=
    ⟨hourContents hiddenActionRules hiddenActionBindings, _, hiddenActionBindings,
      Encodes.of_forall (by decide) (by decide), mem_hourContents _ _,
      Encodes.of_forall (by decide) (by decide), by decide⟩
  obtain ⟨unknown, hdeny⟩ := (h 5 _ p hp 9 (by decide) (.inr hnames)).denied (some (leaseFor 3600)) .view
    onlineContext
  rw [hview] at hdeny
  cases hdeny

/-- With a permission of its own, action 9 is kept. -/
theorem unknown_actions_kept_named :
    ∃ p, decode 5 (encodeContents (hourContents (hiddenActionRules ++ [(9, [1])]) hiddenActionBindings)) = .ok p ∧
      Kept 5 p 9 := by
  have hbytes : Encodes (encodeContents (hourContents (hiddenActionRules ++ [(9, [1])]) hiddenActionBindings))
      (hourContents (hiddenActionRules ++ [(9, [1])]) hiddenActionBindings) :=
    Encodes.of_forall (by decide) (by decide)
  have hbindings : Encodes (encodeContents hiddenActionBindings) hiddenActionBindings :=
    Encodes.of_forall (by decide) (by decide)
  have hnames : Names Tag.actions
      (encodeContents (hourContents (hiddenActionRules ++ [(9, [1])]) hiddenActionBindings)) 9 :=
    ⟨_, _, hiddenActionRules ++ [(9, [1])], hbytes, List.mem_cons_self,
      Encodes.of_forall (by decide) (by decide), by decide⟩
  have hdecode : (decode 5 (encodeContents (hourContents (hiddenActionRules ++ [(9, [1])])
      hiddenActionBindings))).toOption.isSome := by decide +kernel
  obtain ⟨p, hp⟩ : ∃ p, decode 5 (encodeContents (hourContents (hiddenActionRules ++ [(9, [1])])
      hiddenActionBindings)) = .ok p := by
    cases h : decode 5 (encodeContents (hourContents (hiddenActionRules ++ [(9, [1])]) hiddenActionBindings)) with
    | error e => rw [h] at hdecode; cases hdecode
    | ok p => exact ⟨p, rfl⟩
  refine ⟨p, hp, (unknown_actions_kept_iff 5 _ p hp).mpr (fun action hunknown h ↦ ?_) 9 (by decide) (.inl hnames)⟩
  obtain ⟨l, value, m, hl, hvalue, hm, hmem⟩ := h
  obtain rfl := hbytes.unique hl
  obtain rfl : value = encodeContents hiddenActionBindings := by
    simp [hourContents, Tag.actionBinding, Tag.actions, Tag.validity, Tag.network, Tag.minBinding, Tag.maxOpens,
      Tag.watermark] at hvalue
    exact hvalue
  obtain rfl := hbindings.unique hm
  have haction : action = 9 := by
    simp only [hiddenActionBindings, List.map_cons, List.map_nil, List.mem_cons, List.not_mem_nil,
      or_false] at hmem
    rcases hmem with rfl | rfl | rfl | rfl | rfl | rfl | rfl
    all_goals first | rfl | exact absurd (by decide) hunknown
  subst haction
  exact hnames

end OpenCrate.Format.PolicyCodec
