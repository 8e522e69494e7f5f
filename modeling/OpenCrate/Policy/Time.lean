import OpenCrate.Policy.Tightening

/-!
# Time in a decision

A decision reads the clock in nine places. Some of the checks need the moment to be late enough (the floor,
the issue of the lease, hardware time, the start of a window), the others need it to be early enough (expiry,
the offline window, the end of the validity period), and so the moments at which an action is permitted are
an interval (`permitted_between`).

The arithmetic of the checks saturates. `evaluateZ` is the same decision over the integers; the two agree
(`evaluate_iff_evaluateZ`) up to the bounds that stand for "no limit" and the least moment.
-/

namespace OpenCrate

open Except (refuseIf refuseIf_eq_ok_iff check_bind_eq_ok_iff)

/-! ### Hardware time -/

/-- Milliseconds of wall time since the lease was issued, and none if the clock stands before it. -/
def wallElapsedMs (lease : LeaseFacts) (now : Timestamp) : ℕ :=
  (now.toInt - lease.issuedAt.toInt).toNat * 1000

/-- The hardware comparison, without saturation: where the machine's sum is cut off, nothing exceeds it. -/
theorem checkHardwareElapsed_eq_ok_iff {lease : LeaseFacts} {ctx : Context} :
    checkHardwareElapsed lease ctx = .ok () ↔
      ∀ issued ∈ lease.tpmClock, ∀ presented ∈ ctx.device.tpmClock.reading,
        presented.clockMs.toNat - issued.clockMs.toNat ≤ wallElapsedMs lease ctx.now + 300000 := by
  unfold checkHardwareElapsed
  split
  case h_1 issued presented hissued hpresented =>
    have hslack : ((maxClockSkewSeconds.toUInt64?.getD 0).saturatingMul 1000).toNat = 300000 := by decide
    have hwall : (ctx.now.saturatingSub lease.issuedAt).toInt =
        max (-2 ^ 63) (min (ctx.now.toInt - lease.issuedAt.toInt) (2 ^ 63 - 1)) := Int64.toInt_clamp _
    have hclock := presented.clockMs.toNat_lt
    simp only [hissued, hpresented, Option.mem_some_iff, forall_eq', refuseIf_eq_ok_iff, not_lt,
      UInt64.le_iff_toNat_le, UInt64.toNat_saturatingSub, UInt64.toNat_saturatingAdd, hslack,
      UInt64.toNat_saturatingMul, Int64.toNat_toUInt64?_getD, hwall, wallElapsedMs]
    rw [show (1000 : UInt64).toNat = 1000 from rfl]
    omega
  case h_2 hnone =>
    refine iff_of_true rfl fun issued hissued presented hpresented ↦ ?_
    exact (hnone issued presented hissued hpresented).elim

/-- Later, more time has passed. -/
theorem wallElapsedMs_mono {lease : LeaseFacts} {t t' : Timestamp} (h : t ≤ t') :
    wallElapsedMs lease t ≤ wallElapsedMs lease t' := by
  have := Int64.le_iff_toInt_le.mp h
  rw [wallElapsedMs, wallElapsedMs]
  omega

/-! ### Permitted moments -/

/-- The context at another moment. -/
def Context.moment (ctx : Context) (t : Timestamp) : Context := { ctx with now := t }

section Moments

variable {lease : LeaseFacts} {ctx : Context} {t₁ t₂ t₃ : Timestamp}

/-- Not before the issue: later is no worse. -/
theorem checkIssued_of_le (h : t₁ ≤ t₂) (h₁ : checkIssued lease (ctx.moment t₁) = .ok ()) :
    checkIssued lease (ctx.moment t₂) = .ok () := by
  rw [checkIssued, refuseIf_eq_ok_iff, not_lt] at h₁ ⊢
  exact (Int64.saturatingSub_mono le_rfl h).trans h₁

/-- Hardware time outruns wall time: later is no worse. -/
theorem checkHardwareElapsed_of_le (h : t₁ ≤ t₂) (h₁ : checkHardwareElapsed lease (ctx.moment t₁) = .ok ()) :
    checkHardwareElapsed lease (ctx.moment t₂) = .ok () := by
  rw [checkHardwareElapsed_eq_ok_iff] at h₁ ⊢
  intro issued hissued presented hpresented
  exact (h₁ issued hissued presented hpresented).trans (Nat.add_le_add_right (wallElapsedMs_mono h) _)

/-- The offline window: earlier is no worse. -/
theorem checkOffline_of_le {network : Network} (h : t₂ ≤ t₃)
    (h₃ : checkOffline network lease (ctx.moment t₃) = .ok ()) :
    checkOffline network lease (ctx.moment t₂) = .ok () := by
  rw [checkOffline_eq_ok_iff] at h₃ ⊢
  intro honline seconds maxOfflineSeconds hnetwork
  exact (Int64.saturatingSub_mono h le_rfl).trans (h₃ honline seconds maxOfflineSeconds hnetwork)

/-- A window bounds the moment on both sides, a duration from first open only on one. -/
theorem checkValidity_between {validity : Validity} (h₁₂ : t₁ ≤ t₂) (h₂₃ : t₂ ≤ t₃)
    (h₁ : checkValidity validity (ctx.moment t₁) = .ok ())
    (h₃ : checkValidity validity (ctx.moment t₃) = .ok ()) :
    checkValidity validity (ctx.moment t₂) = .ok () := by
  cases validity with
  | always => rfl
  | window notBefore notAfter =>
    simp only [checkValidity, check_bind_eq_ok_iff, refuseIf_eq_ok_iff, not_lt] at h₁ h₃ ⊢
    exact ⟨h₁.1.trans h₁₂, h₂₃.trans h₃.2⟩
  | fromFirstOpen seconds =>
    unfold checkValidity at h₃ ⊢
    cases hfirst : ctx.firstOpenAt with
    | none =>
      simp only [Context.moment, hfirst] at h₃ ⊢
      exact h₃
    | some first =>
      simp only [Context.moment, hfirst, refuseIf_eq_ok_iff, not_lt] at h₃ ⊢
      exact h₂₃.trans h₃

/-- **Between two moments that are admitted, every moment is.** -/
theorem Admits.between {policy : Policy} {action : Action} (h₁₂ : t₁ ≤ t₂) (h₂₃ : t₂ ≤ t₃)
    (h₁ : Admits policy lease action (ctx.moment t₁)) (h₃ : Admits policy lease action (ctx.moment t₃)) :
    Admits policy lease action (ctx.moment t₂) where
  understood := h₁.understood
  floor := h₁.floor.trans h₁₂
  binding := h₁.binding
  identity := h₁.identity
  tpmClock := h₁.tpmClock
  issued := checkIssued_of_le h₁₂ h₁.issued
  network := h₁.network
  hardwareElapsed := checkHardwareElapsed_of_le h₁₂ h₁.hardwareElapsed
  expiry := by
    have hexpiry := h₃.expiry
    rw [checkExpiry, refuseIf_eq_ok_iff, not_lt] at hexpiry ⊢
    exact h₂₃.trans hexpiry
  offline := checkOffline_of_le h₂₃ h₃.offline
  validity := checkValidity_between h₁₂ h₂₃ h₁.validity h₃.validity
  opens := h₁.opens
  budget := h₁.budget
  rule := h₁.rule

end Moments

/-- **Permitted time is one interval.** If an action is allowed at two moments, all else being equal, it is
allowed at every moment between them, with the same obligations. -/
theorem permitted_between {author : Policy} {lease : Option LeaseFacts} {action : Action} {ctx : Context}
    {t₁ t₃ : Timestamp} {o₁ o₃ : Obligations}
    (h₁ : evaluate author lease action (ctx.moment t₁) = .allow o₁)
    (h₃ : evaluate author lease action (ctx.moment t₃) = .allow o₃) :
    o₁ = o₃ ∧ ∀ t₂, t₁ ≤ t₂ → t₂ ≤ t₃ → evaluate author lease action (ctx.moment t₂) = .allow o₁ := by
  cases lease with
  | none => exact absurd h₁ (evaluate_none_ne_allow author action _ o₁)
  | some lease =>
    obtain ⟨hadmits₁, rfl⟩ := evaluate_eq_allow_iff.mp h₁
    obtain ⟨hadmits₃, rfl⟩ := evaluate_eq_allow_iff.mp h₃
    refine ⟨rfl, fun t₂ h₁₂ h₂₃ ↦ evaluate_eq_allow_iff.mpr ⟨?_, rfl⟩⟩
    exact hadmits₁.between h₁₂ h₂₃ hadmits₃

/-- A lease of an hour is good through the hour. -/
theorem permitted_between_hour :
    evaluate hourPolicy (some (leaseFor 3600)) .view (onlineContext.moment 3000) =
      .allow ⟨false, true, true⟩ :=
  have h₁ : evaluate hourPolicy (some (leaseFor 3600)) .view (onlineContext.moment 1000) =
      .allow ⟨false, true, true⟩ := by decide +kernel
  have h₃ : evaluate hourPolicy (some (leaseFor 3600)) .view (onlineContext.moment 4600) =
      .allow ⟨false, true, true⟩ := by decide +kernel
  (permitted_between h₁ h₃).2 3000 (by decide) (by decide)

/-! ### The decision over the integers -/

/-- The obligations of a verdict, if it allows. -/
def Verdict.obligations? : Verdict → Option Obligations
  | .allow obligations => some obligations
  | .deny _ => none

/-- `checkIssued` over the integers. -/
def IssuedZ (lease : LeaseFacts) (ctx : Context) : Prop :=
  lease.issuedAt.toInt - ctx.now.toInt ≤ maxClockSkewSeconds.toInt

/-- The length of the lease window, over the integers. -/
def LeaseFacts.grantedZ (lease : LeaseFacts) : ℤ := lease.expiresAt.toInt - lease.issuedAt.toInt

/-- `checkNetwork` over the integers. -/
def NetworkZ (lease : LeaseFacts) (ctx : Context) : Network → Prop
  | .strictOnline => ctx.online = true
  | .lease seconds _ => 0 ≤ lease.grantedZ ∧ lease.grantedZ ≤ seconds.toInt

/-- `checkHardwareElapsed` over the integers; wall time that ran backward still counts as none. -/
def HardwareElapsedZ (lease : LeaseFacts) (ctx : Context) : Prop :=
  match lease.tpmClock, ctx.device.tpmClock.reading with
  | some issued, some presented =>
    (presented.clockMs.toNat : ℤ) - issued.clockMs.toNat ≤
      max 0 (ctx.now.toInt - lease.issuedAt.toInt) * 1000 + maxClockSkewSeconds.toInt * 1000
  | _, _ => True

/-- `checkOffline` over the integers. -/
def OfflineZ (lease : LeaseFacts) (ctx : Context) : Network → Prop
  | .strictOnline => True
  | .lease _ maxOfflineSeconds =>
    ctx.online = true ∨ ctx.now.toInt - lease.issuedAt.toInt ≤ maxOfflineSeconds.toInt

/-- A duration from first open over the integers, with what is known of the first open. -/
def FirstOpenZ (ctx : Context) (seconds : Int64) : Option Timestamp → Prop
  | some first => ctx.now.toInt ≤ first.toInt + seconds.toInt
  | none => ctx.online = true

/-- `checkValidity` over the integers. -/
def ValidityZ (ctx : Context) : Validity → Prop
  | .always => True
  | .window notBefore notAfter => notBefore ≤ ctx.now ∧ ctx.now ≤ notAfter
  | .fromFirstOpen seconds => FirstOpenZ ctx seconds ctx.firstOpenAt

instance (lease : LeaseFacts) (ctx : Context) : Decidable (IssuedZ lease ctx) :=
  inferInstanceAs (Decidable (_ ≤ _))

instance (lease : LeaseFacts) (ctx : Context) : DecidablePred (NetworkZ lease ctx)
  | .strictOnline => inferInstanceAs (Decidable (_ = _))
  | .lease _ _ => inferInstanceAs (Decidable (_ ∧ _))

instance (lease : LeaseFacts) (ctx : Context) : Decidable (HardwareElapsedZ lease ctx) := by
  unfold HardwareElapsedZ
  split <;> infer_instance

instance (lease : LeaseFacts) (ctx : Context) : DecidablePred (OfflineZ lease ctx)
  | .strictOnline => inferInstanceAs (Decidable True)
  | .lease _ _ => inferInstanceAs (Decidable (_ ∨ _))

instance (ctx : Context) (seconds : Int64) : DecidablePred (FirstOpenZ ctx seconds)
  | some _ => inferInstanceAs (Decidable (_ ≤ _))
  | none => inferInstanceAs (Decidable (_ = _))

instance (ctx : Context) : DecidablePred (ValidityZ ctx)
  | .always => inferInstanceAs (Decidable True)
  | .window _ _ => inferInstanceAs (Decidable (_ ∧ _))
  | .fromFirstOpen seconds => inferInstanceAs (Decidable (FirstOpenZ ctx seconds ctx.firstOpenAt))

/-- **The decision over the integers**: the checks of `evaluate` in their order, every operation on times
exact. What is denied is denied without a reason, because the reasons carry machine integers. -/
def evaluateZ (author : Policy) (lease : Option LeaseFacts) (action : Action) (ctx : Context) :
    Option Obligations := do
  let policy := composed author lease
  (checkUnderstood policy.unknownActions).toOption
  (checkFloor ctx).toOption
  (checkBinding (policy.bindingFor action) (effectiveBinding ctx.device.binding lease)).toOption
  let lease ← lease
  (checkLeaseIdentity lease ctx).toOption
  (checkTpmClock lease ctx).toOption
  guard (IssuedZ lease ctx)
  guard (NetworkZ lease ctx policy.network)
  guard (HardwareElapsedZ lease ctx)
  (checkExpiry lease ctx).toOption
  guard (OfflineZ lease ctx policy.network)
  guard (ValidityZ ctx policy.validity)
  (checkOpens policy.maxOpens ctx.opensSoFar).toOption
  (checkOpens lease.opensRemaining ctx.opensUnderLease).toOption
  (checkRule author policy action).toOption
  some (obligationsOf policy)

/-! ### Saturation does not cross a bound -/

/-- The checks in saturating arithmetic are those over the integers, one after the other. -/
theorem checkIssued_eq_ok_iff {lease : LeaseFacts} {ctx : Context} :
    checkIssued lease ctx = .ok () ↔ IssuedZ lease ctx := by
  rw [checkIssued, refuseIf_eq_ok_iff, not_lt, Int64.saturatingSub, Int64.clamp_le_iff (by decide), IssuedZ]

/-- The hardware comparison needs no assumption: where the machine's sum is cut off, nothing exceeds it. -/
theorem checkHardwareElapsed_iff {lease : LeaseFacts} {ctx : Context} :
    checkHardwareElapsed lease ctx = .ok () ↔ HardwareElapsedZ lease ctx := by
  rw [checkHardwareElapsed_eq_ok_iff, HardwareElapsedZ]
  split
  case h_1 issued presented hissued hpresented =>
    have hskew : maxClockSkewSeconds.toInt = 300 := by decide
    simp only [hissued, hpresented, Option.mem_some_iff, forall_eq', wallElapsedMs, hskew]
    omega
  case h_2 hnone =>
    refine iff_of_true (fun issued hissued presented hpresented ↦ ?_) trivial
    exact (hnone issued presented hissued hpresented).elim

/-- A requirement with a limit: neither of its bounds is the greatest integer, which stands for no limit. -/
def Network.Limited (network : Network) : Prop :=
  ∀ seconds maxOfflineSeconds, network = .lease seconds maxOfflineSeconds →
    seconds ≠ Int64.maxValue ∧ maxOfflineSeconds ≠ Int64.maxValue

theorem checkNetwork_iff {network : Network} {lease : LeaseFacts} {ctx : Context} (h : network.Limited) :
    checkNetwork network lease ctx = .ok () ↔ NetworkZ lease ctx network := by
  cases network with
  | strictOnline => rw [checkNetwork, refuseIf_eq_ok_iff, Bool.not_eq_false, NetworkZ]
  | lease seconds maxOfflineSeconds =>
    rw [checkNetwork, refuseIf_eq_ok_iff, not_or, not_lt, not_lt, NetworkZ, LeaseFacts.granted,
      Int64.saturatingSub, Int64.clamp_le_iff (h _ _ rfl).1, Int64.le_clamp_iff (by decide)]
    rfl

theorem checkOffline_iff {network : Network} {lease : LeaseFacts} {ctx : Context} (h : network.Limited) :
    checkOffline network lease ctx = .ok () ↔ OfflineZ lease ctx network := by
  rw [checkOffline_eq_ok_iff]
  cases network with
  | strictOnline => exact iff_of_true (fun _ _ _ h ↦ Network.noConfusion h) trivial
  | lease seconds maxOfflineSeconds =>
    rw [OfflineZ, ← Int64.clamp_le_iff (h _ _ rfl).2, ← Int64.saturatingSub]
    cases ctx.online with
    | false =>
      refine ⟨fun h ↦ .inr (h rfl _ _ rfl), fun h _ s off heq ↦ ?_⟩
      obtain ⟨-, rfl⟩ := Network.lease.inj heq
      exact h.resolve_left Bool.false_ne_true
    | true => exact iff_of_true (fun h ↦ absurd h (by decide)) (.inl rfl)

/-- A deadline below the least moment is missed, except at the least moment. -/
theorem checkValidity_iff {validity : Validity} {ctx : Context} (h : ctx.now ≠ Int64.minValue) :
    checkValidity validity ctx = .ok () ↔ ValidityZ ctx validity := by
  cases validity with
  | always => exact iff_of_true rfl trivial
  | window notBefore notAfter =>
    simp only [checkValidity, check_bind_eq_ok_iff, refuseIf_eq_ok_iff, not_lt, ValidityZ]
  | fromFirstOpen seconds =>
    unfold checkValidity ValidityZ
    dsimp only
    cases hfirst : ctx.firstOpenAt with
    | none => simp only [refuseIf_eq_ok_iff, Bool.not_eq_false, FirstOpenZ]
    | some first =>
      simp only [refuseIf_eq_ok_iff, not_lt]
      exact Int64.le_clamp_iff h

/-! ### The two decisions -/

/-- The stricter of two requirements with limits has limits. -/
theorem Network.Limited.tighten {author server : Network} (ha : author.Limited) (hs : server.Limited) :
    (tightenNetwork author server).Limited := by
  cases author with
  | strictOnline => exact nofun
  | lease a ao =>
    cases server with
    | strictOnline => exact nofun
    | lease b bo =>
      rintro _ _ ⟨⟩
      constructor
      · rcases min_choice a b with h | h <;> rw [h]
        exacts [(ha _ _ rfl).1, (hs _ _ rfl).1]
      · rcases min_choice ao bo with h | h <;> rw [h]
        exacts [(ha _ _ rfl).2, (hs _ _ rfl).2]

/-- Limits of the parts are limits of the merge. -/
theorem limited_composed {author : Policy} {lease : Option LeaseFacts} (ha : author.network.Limited)
    (hs : ∀ l ∈ lease, ∀ server ∈ l.serverPolicy, server.network.Limited) :
    (composed author lease).network.Limited := by
  rw [composed]
  cases hserver : lease.bind LeaseFacts.serverPolicy with
  | none => exact ha
  | some server =>
    obtain ⟨l, hl, hpolicy⟩ := Option.bind_eq_some_iff.mp hserver
    exact ha.tighten (hs l hl server hpolicy)

theorem toOption_eq_some_iff {ε : Type} {x : Except ε Unit} {u : Unit} : x.toOption = some u ↔ x = .ok () := by
  cases x <;> simp [Except.toOption]

/-- What the decision over the integers allows, without the order of its checks. -/
theorem evaluateZ_eq_some_iff {author : Policy} {lease : LeaseFacts} {action : Action} {ctx : Context}
    {o : Obligations} (hnow : ctx.now ≠ Int64.minValue)
    (hlimited : (composed author (some lease)).network.Limited) :
    evaluateZ author (some lease) action ctx = some o ↔
      Admits (composed author (some lease)) lease action ctx ∧
        o = obligationsOf (composed author (some lease)) := by
  simp only [evaluateZ, Option.bind_eq_bind, Option.bind_eq_some_iff, toOption_eq_some_iff,
    Option.guard_eq_some', exists_const, checkUnderstood_eq_ok_iff, checkFloor, checkBinding, checkRule,
    refuseIf_eq_ok_iff, not_lt, not_not, Option.some.injEq, ← checkIssued_eq_ok_iff,
    ← checkHardwareElapsed_iff, ← checkNetwork_iff hlimited, ← checkOffline_iff hlimited,
    ← checkValidity_iff hnow]
  constructor
  · rintro ⟨h₁, h₂, h₃, _, rfl, h₄, h₅, h₆, h₇, h₈, h₉, h₁₀, h₁₁, h₁₂, h₁₃, h₁₄, rfl⟩
    exact ⟨⟨h₁, h₂, h₃, h₄, h₅, h₆, h₇, h₈, h₉, h₁₀, h₁₁, h₁₂, h₁₃, h₁₄⟩, rfl⟩
  · rintro ⟨h, rfl⟩
    exact ⟨h.understood, h.floor, h.binding, lease, rfl, h.identity, h.tpmClock, h.issued, h.network,
      h.hardwareElapsed, h.expiry, h.offline, h.validity, h.opens, h.budget, h.rule, rfl⟩

/-- **Saturation never changes a verdict.** Unless the clock stands at the least moment or a bound of a
network requirement is the greatest integer, the decision allows exactly what it allows over the integers,
with the same obligations; and a lease it accepts keeps the bounds of the policy in force as they are. -/
theorem evaluate_iff_evaluateZ {author : Policy} {lease : Option LeaseFacts} {ctx : Context}
    (hnow : Int64.minValue < ctx.now) (hauthor : author.network.Limited)
    (hserver : ∀ l ∈ lease, ∀ server ∈ l.serverPolicy, server.network.Limited) (action : Action) :
    (evaluate author lease action ctx).obligations? = evaluateZ author lease action ctx ∧
      ∀ l o seconds maxOfflineSeconds, lease = some l → evaluate author lease action ctx = .allow o →
        (composed author lease).network = .lease seconds maxOfflineSeconds →
        0 ≤ l.expiresAt.toInt - l.issuedAt.toInt ∧
          l.expiresAt.toInt - l.issuedAt.toInt ≤ seconds.toInt ∧
          (ctx.online = false → ctx.now.toInt - l.issuedAt.toInt ≤ maxOfflineSeconds.toInt) := by
  have hlimited := limited_composed hauthor hserver
  constructor
  · cases lease with
    | none =>
      have hZ : evaluateZ author none action ctx = none := by
        simp [evaluateZ, Option.bind_eq_bind]
      cases hverdict : evaluate author none action ctx with
      | allow o => exact absurd hverdict (evaluate_none_ne_allow author action ctx o)
      | deny reason => exact hZ.symm
    | some lease =>
      refine Option.ext fun o ↦ ?_
      rw [evaluateZ_eq_some_iff hnow.ne' hlimited, ← evaluate_eq_allow_iff]
      cases evaluate author (some lease) action ctx <;> simp [Verdict.obligations?]
  · rintro l o seconds maxOfflineSeconds rfl hallow hnetwork
    obtain ⟨hadmits, -⟩ := evaluate_eq_allow_iff.mp hallow
    have hgranted := (checkNetwork_iff hlimited).mp hadmits.network
    have hoffline := (checkOffline_iff hlimited).mp hadmits.offline
    rw [hnetwork] at hgranted hoffline
    refine ⟨hgranted.1, hgranted.2, fun honline ↦ hoffline.resolve_left ?_⟩
    rw [honline]
    exact Bool.false_ne_true

/-- An hour of a lease, compared over the integers. -/
theorem evaluate_iff_evaluateZ_hour :
    (evaluate hourPolicy (some (leaseFor 3600)) .view onlineContext).obligations? =
      evaluateZ hourPolicy (some (leaseFor 3600)) .view onlineContext := by
  have hlimited : hourPolicy.network.Limited := by
    rintro _ _ ⟨⟩
    decide
  have hprofile : ∀ l ∈ some (leaseFor 3600), ∀ server ∈ l.serverPolicy, server.network.Limited := by
    rintro _ ⟨⟩ _ ⟨⟩
  exact (evaluate_iff_evaluateZ (by decide) hlimited hprofile .view).1

end OpenCrate
