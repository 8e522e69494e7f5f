import OpenCrate.Policy.Evaluate
import Mathlib.Order.MinMax

/-!
# What server tightening does to a decision

`Admits` states what an allowed action means without the order of the checks, and
`evaluate_eq_allow_iff` says that `evaluate` allows exactly then. Policies are compared by
`Stricter`, one clause a check, and a stricter policy admits less (`Admits.of_stricter`), **except**
for the network requirement: replacing an offline allowance by `strictOnline` drops the comparison
of the lease length with the author's, so the network clause is carried separately.
-/

namespace OpenCrate

open Except (refuseIf bind_ne_error check_bind_eq_ok_iff refuseIf_eq_ok_iff refuseIf_ne_error)

/-! ### What an allowed action means -/

/-- Everything an allowed action needs, over the policy in force. -/
structure Admits (policy : Policy) (lease : LeaseFacts) (action : Action) (ctx : Context) :
    Prop where
  understood : ∀ k, k ∉ policy.unknownActions
  floor : ctx.monotonicFloor ≤ ctx.now
  binding : policy.bindingFor action ≤ effectiveBinding ctx.device.binding (some lease)
  identity : checkLeaseIdentity lease ctx = .ok ()
  tpmClock : checkTpmClock lease ctx = .ok ()
  issued : checkIssued lease ctx = .ok ()
  network : checkNetwork policy.network lease ctx = .ok ()
  hardwareElapsed : checkHardwareElapsed lease ctx = .ok ()
  expiry : checkExpiry lease ctx = .ok ()
  offline : checkOffline policy.network lease ctx = .ok ()
  validity : checkValidity policy.validity ctx = .ok ()
  opens : checkOpens policy.maxOpens ctx.opensSoFar = .ok ()
  budget : checkOpens lease.opensRemaining ctx.opensUnderLease = .ok ()
  rule : policy.rule action = .allow

/-- Nothing unknown is admitted. -/
theorem checkUnderstood_eq_ok_iff {s : BTreeSet UInt16} {u : Unit} :
    checkUnderstood s = .ok u ↔ ∀ k, k ∉ s := by
  rw [← BTreeSet.iter_head?_eq_none_iff, checkUnderstood]
  cases s.iter.head? <;> simp

/-- The checks of a lease are five. -/
theorem checkLeased_eq_ok_iff {policy : Policy} {lease : LeaseFacts} {ctx : Context}
    {u : Unit} :
    checkLeased policy lease ctx = .ok u ↔
      checkLeaseIdentity lease ctx = .ok () ∧ checkTpmClock lease ctx = .ok () ∧
      checkIssued lease ctx = .ok () ∧ checkNetwork policy.network lease ctx = .ok () ∧
      checkHardwareElapsed lease ctx = .ok () ∧ checkExpiry lease ctx = .ok () ∧
      checkOffline policy.network lease ctx = .ok () ∧
      checkValidity policy.validity ctx = .ok () ∧
      checkOpens policy.maxOpens ctx.opensSoFar = .ok () ∧
      checkOpens lease.opensRemaining ctx.opensUnderLease = .ok () := by
  simp only [checkLeased, check_bind_eq_ok_iff]

/-- **The checks decide exactly `Admits`**, and the obligations are those of the policy in force. -/
theorem evaluate_eq_allow_iff {author : Policy} {lease : LeaseFacts} {action : Action}
    {ctx : Context} {o : Obligations} :
    evaluate author (some lease) action ctx = .allow o ↔
      Admits (composed author (some lease)) lease action ctx ∧
        o = obligationsOf (composed author (some lease)) := by
  have hdecide : evaluate author (some lease) action ctx = .allow o ↔
      decideAccess author (some lease) action ctx = .ok o := by
    rw [evaluate]
    cases decideAccess author (some lease) action ctx <;> simp
  rw [hdecide]
  simp only [decideAccess, check_bind_eq_ok_iff, checkUnderstood_eq_ok_iff, checkFloor,
    checkBinding, checkRule, refuseIf_eq_ok_iff, not_lt, checkLeased_eq_ok_iff, not_not,
    Except.ok.injEq]
  constructor
  · rintro ⟨h₁, h₂, h₃, ⟨h₄, h₅, h₆, h₇, h₈, h₉, h₁₀, h₁₁, h₁₂, h₁₃⟩, h₁₄, rfl⟩
    exact ⟨⟨h₁, h₂, h₃, h₄, h₅, h₆, h₇, h₈, h₉, h₁₀, h₁₁, h₁₂, h₁₃, h₁₄⟩, rfl⟩
  · rintro ⟨h, rfl⟩
    exact ⟨h.understood, h.floor, h.binding, ⟨h.identity, h.tpmClock, h.issued, h.network,
      h.hardwareElapsed, h.expiry, h.offline, h.validity, h.opens, h.budget⟩, h.rule, rfl⟩

/-- Without a lease nothing is allowed. -/
theorem evaluate_none_ne_allow (author : Policy) (action : Action) (ctx : Context)
    (o : Obligations) : evaluate author none action ctx ≠ .allow o := by
  have herror : ∀ o, decideAccess author none action ctx ≠ .ok o := by
    intro o h
    simp only [decideAccess, check_bind_eq_ok_iff] at h
    exact absurd h.2.2.2 (by simp)
  rw [evaluate]
  rcases hdecide : decideAccess author none action ctx with reason | o'
  · simp
  · exact absurd hdecide (herror o')

/-! ### Comparing policies -/

/-- `q` is at least as strict as `p`, check by check, leaving the network requirement aside. -/
structure Stricter (q p : Policy) : Prop where
  understood : ∀ k, k ∈ p.unknownActions → k ∈ q.unknownActions
  binding : ∀ action, p.bindingFor action ≤ q.bindingFor action
  validity : ∀ ctx, checkValidity q.validity ctx = .ok () → checkValidity p.validity ctx = .ok ()
  opens : ∀ n, checkOpens q.maxOpens n = .ok () → checkOpens p.maxOpens n = .ok ()
  rule : ∀ action, q.rule action = .allow → p.rule action = .allow
  watermark : p.watermark = true → q.watermark = true

/-- **A stricter policy admits less**, given its network checks. -/
theorem Admits.of_stricter {q p : Policy} {lease : LeaseFacts} {action : Action} {ctx : Context}
    (hqp : Stricter q p) (hnetwork : checkNetwork p.network lease ctx = .ok ())
    (hoffline : checkOffline p.network lease ctx = .ok ()) (h : Admits q lease action ctx) :
    Admits p lease action ctx where
  understood k hk := h.understood k (hqp.understood k hk)
  floor := h.floor
  binding := (hqp.binding action).trans h.binding
  identity := h.identity
  tpmClock := h.tpmClock
  issued := h.issued
  network := hnetwork
  hardwareElapsed := h.hardwareElapsed
  expiry := h.expiry
  offline := hoffline
  validity := hqp.validity ctx h.validity
  opens := hqp.opens _ h.opens
  budget := h.budget
  rule := hqp.rule action h.rule

/-- A stricter policy obliges to at least as much. -/
theorem Stricter.obligationsOf {q p : Policy} (hqp : Stricter q p) :
    (obligationsOf q).AtLeastAsStrict (obligationsOf p) := by
  refine ⟨hqp.watermark, fun hp ↦ ?_⟩
  have hrule := hqp.rule .screenshot
  simp only [OpenCrate.obligationsOf, bne_iff_ne, ne_eq] at hp ⊢
  exact fun hq ↦ hp (hrule hq)

/-! ### Intersection only tightens -/

section Intersect

variable (author server : Policy)

/-- Only an entry allows an action. -/
theorem rule_eq_allow_iff {p : Policy} {action : Action} :
    p.rule action = .allow ↔ p.actions.get? action = some .allow := by
  rw [Policy.rule]
  rcases p.actions.get? action with - | r <;> simp

/-- A merge allows what both allow. -/
theorem rule_intersect_eq_allow_iff {action : Action} :
    (intersect author server).rule action = .allow ↔
      author.rule action = .allow ∧ server.rule action = .allow := by
  rw [rule_eq_allow_iff, rule_eq_allow_iff, intersect, BTreeMap.get?_retain,
    Option.filter_eq_some_iff]
  simp [Policy.rule]

/-- It asks for the stronger binding. -/
theorem bindingFor_intersect (action : Action) :
    (intersect author server).bindingFor action =
      max (author.bindingFor action) (server.bindingFor action) := by
  -- the entry of the composed policy is the stronger of the two entries
  have hentry : ((intersect author server).actionBinding.get? action).getD .software =
      max ((author.actionBinding.get? action).getD .software)
        ((server.actionBinding.get? action).getD .software) := by
    rw [intersect, BTreeMap.get?_mergeWith]
    rcases server.actionBinding.get? action with - | b
    · exact (max_eq_left (Binding.software_le _)).symm
    · rcases author.actionBinding.get? action with - | a
      · exact (max_self b).trans (max_eq_right (Binding.software_le b)).symm
      · rfl
  rw [Policy.bindingFor, hentry]
  exact max_max_max_comm _ _ _ _

/-- The window with no moments passes at none. -/
theorem checkValidity_impossible_ne_ok (ctx : Context) : checkValidity impossible ctx ≠ .ok () := by
  intro h
  simp only [checkValidity, impossible, check_bind_eq_ok_iff, refuseIf_eq_ok_iff, not_lt] at h
  exact absurd (h.1.trans h.2) (by decide)

@[simp] theorem tightenValidity_always (v : Validity) : tightenValidity v .always = v := by
  cases v <;> rfl

/-- A tightened period is within the period. -/
theorem checkValidity_of_tightenValidity {v w : Validity} {ctx : Context}
    (h : checkValidity (tightenValidity v w) ctx = .ok ()) : checkValidity v ctx = .ok () := by
  cases v with
  | always => rfl
  | window aFrom aTo =>
    cases w with
    | always => exact h
    | window bFrom bTo =>
      simp only [tightenValidity, checkValidity, check_bind_eq_ok_iff, refuseIf_eq_ok_iff, not_lt,
        max_le_iff, le_min_iff] at h ⊢
      exact ⟨h.1.1, h.2.1⟩
    -- a window and a duration do not mix
    | fromFirstOpen b => exact absurd h (checkValidity_impossible_ne_ok ctx)
  | fromFirstOpen a =>
    cases w with
    | always => exact h
    | window bFrom bTo => exact absurd h (checkValidity_impossible_ne_ok ctx)
    | fromFirstOpen b =>
      rcases hfirst : ctx.firstOpenAt with - | first
      · simpa [tightenValidity, checkValidity, hfirst] using h
      · simp only [tightenValidity, checkValidity, hfirst, refuseIf_eq_ok_iff, not_lt] at h ⊢
        exact h.trans (Int64.saturatingAdd_mono_right first (min_le_left a b))

/-- The stricter of two limits is met when both are. -/
theorem checkOpens_tightenMaxOpens_iff {a b : Option UInt32} {opens : UInt32} :
    checkOpens (tightenMaxOpens a b) opens = .ok () ↔
      checkOpens a opens = .ok () ∧ checkOpens b opens = .ok () := by
  rcases a with - | a <;> rcases b with - | b <;> simp [tightenMaxOpens, checkOpens]

/-- **A merge is stricter than its first part.** -/
theorem stricter_intersect : Stricter (intersect author server) author where
  understood _ hk := BTreeSet.mem_union.2 (Or.inl hk)
  binding action := (bindingFor_intersect author server action).symm ▸ le_max_left _ _
  validity _ := checkValidity_of_tightenValidity
  opens _ h := (checkOpens_tightenMaxOpens_iff.mp h).1
  rule _ h := ((rule_intersect_eq_allow_iff author server).1 h).1
  watermark h := by simp [intersect, h]

end Intersect

/-! ### The network requirement -/

/-- A profile **masks** the author's lease length: the author bounds the lease and the presented one
breaks the bound, but the profile is `strictOnline`, whose check does not look at the length. -/
def MasksLeaseLength (author server : Policy) (lease : LeaseFacts) : Prop :=
  server.network = .strictOnline ∧
    ∃ seconds maxOfflineSeconds, author.network = .lease seconds maxOfflineSeconds ∧
      (lease.granted < 0 ∨ seconds < lease.granted)

/-- With the composed requirement met, the author's own fails exactly when it is masked. -/
theorem checkNetwork_author_iff {author server : Policy} {lease : LeaseFacts} {ctx : Context}
    (h : checkNetwork (tightenNetwork author.network server.network) lease ctx = .ok ()) :
    checkNetwork author.network lease ctx = .ok () ↔ ¬MasksLeaseLength author server lease := by
  rw [MasksLeaseLength]
  rcases ha : author.network with - | ⟨s, off⟩
  · rw [ha, tightenNetwork] at h
    simp [h]
  · rcases hs : server.network with - | ⟨s', off'⟩
    · simp [checkNetwork]
    · rw [ha, hs] at h
      simp only [tightenNetwork, checkNetwork, refuseIf_eq_ok_iff, not_or, not_lt,
        le_min_iff] at h
      simp [checkNetwork, h]

/-- The offline bound, without the order in which it looks at the network. -/
theorem checkOffline_eq_ok_iff {network : Network} {lease : LeaseFacts} {ctx : Context} :
    checkOffline network lease ctx = .ok () ↔ ctx.online = false →
      ∀ seconds maxOfflineSeconds, network = .lease seconds maxOfflineSeconds →
        ctx.now.saturatingSub lease.issuedAt ≤ maxOfflineSeconds := by
  unfold checkOffline
  split
  case h_1 _ _ _ off hon =>
    rw [refuseIf_eq_ok_iff, not_lt]
    constructor
    · intro h _ s off' heq
      cases heq
      exact h
    · intro h
      exact h hon _ _ rfl
  case h_2 hnot =>
    exact iff_of_true rfl fun hon s off heq ↦ (hnot s off hon heq).elim

/-- The offline bound of the author holds whenever the composed requirement does: either it is part
of it, or the composed requirement needs the network. -/
theorem checkOffline_author {author server : Policy} {lease : LeaseFacts} {ctx : Context}
    (hnet : checkNetwork (tightenNetwork author.network server.network) lease ctx = .ok ())
    (h : checkOffline (tightenNetwork author.network server.network) lease ctx = .ok ()) :
    checkOffline author.network lease ctx = .ok () := by
  rw [checkOffline_eq_ok_iff] at h ⊢
  intro honline s off ha
  rw [ha] at hnet h
  rcases hs : server.network with - | ⟨s', off'⟩
  · rw [hs] at hnet
    exact absurd honline (refuseIf_eq_ok_iff.mp hnet)
  · rw [hs] at h
    exact (le_min_iff.mp (h honline _ _ rfl)).1

/-! ### A profile in the lease -/

section Profile

variable (author server : Policy) (lease : LeaseFacts) (action : Action) (ctx : Context)

/-- The profile a lease carries is not read by the checks themselves. -/
theorem admits_serverPolicy_iff {policy : Policy} (s : Option Policy) :
    Admits policy { lease with serverPolicy := s } action ctx ↔ Admits policy lease action ctx :=
  ⟨fun h ↦ ⟨h.1, h.2, h.3, h.4, h.5, h.6, h.7, h.8, h.9, h.10, h.11, h.12, h.13, h.14⟩,
    fun h ↦ ⟨h.1, h.2, h.3, h.4, h.5, h.6, h.7, h.8, h.9, h.10, h.11, h.12, h.13, h.14⟩⟩

/-- **Exactly when a profile does not widen access.** Where the author's policy with the server's
profile allows an action, the author's policy alone allows it too, with obligations that are no
stricter, if and only if the profile does not mask the author's lease length. -/
theorem profile_never_widens_iff {author server : Policy} {lease : LeaseFacts} {action : Action}
    {ctx : Context} {o : Obligations}
    (h : evaluate author (some { lease with serverPolicy := some server }) action ctx =
      .allow o) :
    (∃ o', evaluate author (some { lease with serverPolicy := none }) action ctx = .allow o' ∧
        o.AtLeastAsStrict o') ↔
      ¬MasksLeaseLength author server lease := by
  obtain ⟨hadmits, rfl⟩ := evaluate_eq_allow_iff.1 h
  have hq : Admits (intersect author server) lease action ctx :=
    (admits_serverPolicy_iff lease action ctx _).1 hadmits
  -- the profile can only hide the length of the lease
  have hnet := checkNetwork_author_iff hq.network
  constructor
  · rintro ⟨o', ho', -⟩
    have hp := (evaluate_eq_allow_iff.1 ho').1
    exact hnet.1 hp.network
  · intro hmask
    refine ⟨obligationsOf author, evaluate_eq_allow_iff.2 ⟨?_, rfl⟩,
      (stricter_intersect author server).obligationsOf⟩
    rw [admits_serverPolicy_iff]
    exact hq.of_stricter (stricter_intersect author server) (hnet.2 hmask)
      (checkOffline_author hq.network hq.offline)

/-- The author lets the file be viewed under leases of at most an hour. -/
def hourPolicy : Policy :=
  { Policy.denyAll.allow .view with network := .lease 3600 3600 }

/-- A server profile that asks for the network at every open and tightens nothing else. -/
def strictProfile : Policy := { Policy.noTightening with network := .strictOnline }

/-- A lease the server granted for `seconds`. -/
def leaseFor (seconds : Int64) : LeaseFacts where
  deviceFingerprint := List.Vector.replicate 32 0
  policyHash := List.Vector.replicate 32 0
  seq := 1
  epoch := 0
  issuedAt := 1000
  expiresAt := 1000 + seconds
  opensRemaining := none
  revoked := false
  serverPolicy := none
  attested := none
  tpmClock := none

/-- A device online at the moment its lease was issued. -/
def onlineContext : Context where
  now := 1000
  monotonicFloor := 0
  firstOpenAt := none
  opensSoFar := 0
  opensUnderLease := 0
  device := ⟨List.Vector.replicate 32 0, .software, .absent⟩
  highestSeqSeen := 0
  online := true
  policyHash := List.Vector.replicate 32 0

/-- A month-long lease, refused under the author's one-hour policy, is admitted once the server adds
a profile that is stricter in every field. -/
theorem strict_profile_admits_month_lease :
    ¬∀ (author server : Policy) (lease : LeaseFacts) (action : Action) (ctx : Context)
      (o : Obligations),
      evaluate author (some { lease with serverPolicy := some server }) action ctx = .allow o →
      ∃ o', evaluate author (some { lease with serverPolicy := none }) action ctx = .allow o' ∧
        o.AtLeastAsStrict o' := by
  intro h
  have hallow : evaluate hourPolicy
      (some { leaseFor 2592000 with serverPolicy := some strictProfile }) .view onlineContext =
      .allow ⟨false, true, true⟩ := by decide +kernel
  have hdeny : evaluate hourPolicy (some { leaseFor 2592000 with serverPolicy := none }) .view
      onlineContext = .deny (.leaseOutlivesPolicy 3600 2592000) := by decide +kernel
  obtain ⟨o', ho', -⟩ := h _ _ _ _ _ _ hallow
  rw [hdeny] at ho'
  cases ho'

/-- At an hour's lease the same profile masks nothing. -/
theorem profile_never_widens_hour_lease :
    evaluate hourPolicy (some { leaseFor 3600 with serverPolicy := some strictProfile }) .view
        onlineContext = .allow ⟨false, true, true⟩ ∧
      ((∃ o', evaluate hourPolicy (some { leaseFor 3600 with serverPolicy := none }) .view
          onlineContext = .allow o' ∧ (⟨false, true, true⟩ : Obligations).AtLeastAsStrict o') ↔
        ¬MasksLeaseLength hourPolicy strictProfile (leaseFor 3600)) :=
  ⟨by decide +kernel, profile_never_widens_iff (by decide +kernel)⟩

/-- Everything a decision checks before the action's own rule. -/
def checkBeforeRule (policy : Policy) (lease : LeaseFacts) (action : Action) (ctx : Context) :
    Except DenyReason Unit := do
  checkUnderstood policy.unknownActions
  checkFloor ctx
  checkBinding (policy.bindingFor action) (effectiveBinding ctx.device.binding (some lease))
  checkLeased policy lease ctx

/-- The steps of a decision with a lease. -/
theorem decideAccess_some :
    decideAccess author (some lease) action ctx =
      (checkBeforeRule (composed author (some lease)) lease action ctx >>= fun _ ↦
        checkRule author (composed author (some lease)) action >>= fun _ ↦
          .ok (obligationsOf (composed author (some lease)))) := by
  simp only [decideAccess, checkBeforeRule, bind_assoc]

/-- The checks of the lease do not name the server. -/
theorem checkLeased_ne_tightened (policy : Policy) (a : Action) :
    checkLeased policy lease ctx ≠ .error (.actionTightenedByServer a) := by
  have hidentity : checkLeaseIdentity lease ctx ≠ .error (.actionTightenedByServer a) :=
    bind_ne_error (refuseIf_ne_error nofun) fun _ _ ↦
      bind_ne_error (refuseIf_ne_error nofun) fun _ _ ↦
        bind_ne_error (refuseIf_ne_error nofun) fun _ _ ↦ refuseIf_ne_error nofun
  have htpm : checkTpmClock lease ctx ≠ .error (.actionTightenedByServer a) := by
    unfold checkTpmClock
    split
    · simp
    · split <;> simp
  have hnetwork : checkNetwork policy.network lease ctx ≠ .error (.actionTightenedByServer a) := by
    unfold checkNetwork
    split <;> simp
  have hhardware : checkHardwareElapsed lease ctx ≠ .error (.actionTightenedByServer a) := by
    unfold checkHardwareElapsed
    split <;> simp
  have hoffline : checkOffline policy.network lease ctx ≠ .error (.actionTightenedByServer a) := by
    unfold checkOffline
    split <;> simp
  have hvalidity : checkValidity policy.validity ctx ≠ .error (.actionTightenedByServer a) := by
    unfold checkValidity
    split
    · simp
    · exact bind_ne_error (refuseIf_ne_error nofun) fun _ _ ↦ refuseIf_ne_error nofun
    · split <;> simp
  have hopens : ∀ limit opens,
      checkOpens limit opens ≠ .error (.actionTightenedByServer a) := by
    intro limit opens
    unfold checkOpens
    split <;> simp
  refine bind_ne_error hidentity fun _ _ ↦ bind_ne_error htpm fun _ _ ↦ ?_
  refine bind_ne_error (refuseIf_ne_error nofun) fun _ _ ↦ bind_ne_error hnetwork fun _ _ ↦ ?_
  refine bind_ne_error hhardware fun _ _ ↦ bind_ne_error (refuseIf_ne_error nofun) fun _ _ ↦ ?_
  refine bind_ne_error hoffline fun _ _ ↦ bind_ne_error hvalidity fun _ _ ↦ ?_
  exact bind_ne_error (hopens _ _) fun _ _ ↦ hopens _ _

/-- Only the rule check names the server: no earlier check blames the profile for the action. -/
theorem checkBeforeRule_ne_tightened (policy : Policy) (a : Action) :
    checkBeforeRule policy lease action ctx ≠ .error (.actionTightenedByServer a) := by
  have hunderstood : checkUnderstood policy.unknownActions ≠
      .error (.actionTightenedByServer a) := by
    unfold checkUnderstood
    split <;> simp
  refine bind_ne_error hunderstood fun _ _ ↦ bind_ne_error (refuseIf_ne_error nofun) fun _ _ ↦ ?_
  exact bind_ne_error (refuseIf_ne_error nofun) fun _ _ ↦ checkLeased_ne_tightened lease ctx policy a

/-- **A profile in the lease decides as the pre-composed policy.** Only the denial of an action the
author allows is told apart: the composed policy has no author to compare with. -/
theorem evaluate_profile_eq_evaluate_intersect :
    if evaluate author (some { lease with serverPolicy := some server }) action ctx =
        .deny (.actionTightenedByServer action) then
      evaluate (intersect author server) (some { lease with serverPolicy := none }) action ctx =
          .deny (.actionNotPermitted action) ∧
        author.rule action = .allow
    else
      evaluate author (some { lease with serverPolicy := some server }) action ctx =
        evaluate (intersect author server) (some { lease with serverPolicy := none }) action
          ctx := by
  -- the two runs share every check before the rule: the profile is composed before the first one
  have hleft : decideAccess author (some { lease with serverPolicy := some server }) action ctx =
      (checkBeforeRule (intersect author server) lease action ctx >>= fun _ ↦
        checkRule author (intersect author server) action >>= fun _ ↦
          .ok (obligationsOf (intersect author server))) :=
    decideAccess_some _ _ _ _
  have hright : decideAccess (intersect author server) (some { lease with serverPolicy := none })
      action ctx =
      (checkBeforeRule (intersect author server) lease action ctx >>= fun _ ↦
        checkRule (intersect author server) (intersect author server) action >>= fun _ ↦
          .ok (obligationsOf (intersect author server))) :=
    decideAccess_some _ _ _ _
  rw [evaluate, evaluate, hleft, hright]
  rcases hpre : checkBeforeRule (intersect author server) lease action ctx with r | u
  · have hr : r ≠ .actionTightenedByServer action := by
      rintro rfl
      exact checkBeforeRule_ne_tightened lease action ctx _ action hpre
    simp [hr]
  · rcases hrule : (intersect author server).rule action with - | -
    · simp [checkRule, refuseIf, hrule]
    · rcases hauthor : author.rule action with - | - <;>
        simp [checkRule, refuseIf, hrule, hauthor]

end Profile

end OpenCrate
