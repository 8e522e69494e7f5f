import OpenCrate.Policy.Tightening

/-!
# What the client remembers

Between two decisions a client remembers the greatest time and the greatest lease number it has seen,
and it counts opens. All of these only grow, and they only close access (`clientState_closes`): in
whatever way a later context is worse than an earlier one, what it allows was allowed before, with the
same obligations.

The network is the one input that enters in three places: a strict policy needs it, an offline window
ends without it, and a first open that nobody recorded is only admitted with it.
-/

namespace OpenCrate

open Except (refuseIf_eq_ok_iff)

/-- `c'` comes from `c` by growing counters and floors, and possibly by losing the network. -/
structure Context.Closes (c c' : Context) : Prop where
  now : c'.now = c.now
  firstOpenAt : c'.firstOpenAt = c.firstOpenAt
  device : c'.device = c.device
  policyHash : c'.policyHash = c.policyHash
  monotonicFloor : c.monotonicFloor ≤ c'.monotonicFloor
  highestSeqSeen : c.highestSeqSeen ≤ c'.highestSeqSeen
  opensSoFar : c.opensSoFar ≤ c'.opensSoFar
  opensUnderLease : c.opensUnderLease ≤ c'.opensUnderLease
  online : c'.online = true → c.online = true

namespace Context.Closes

variable {c c' c'' : Context}

/-- Every context closes itself. -/
theorem refl (c : Context) : c.Closes c :=
  ⟨rfl, rfl, rfl, rfl, le_rfl, le_rfl, le_rfl, le_rfl, id⟩

/-- **Closing composes.** -/
theorem trans (h : c.Closes c') (h' : c'.Closes c'') : c.Closes c'' where
  now := h'.now.trans h.now
  firstOpenAt := h'.firstOpenAt.trans h.firstOpenAt
  device := h'.device.trans h.device
  policyHash := h'.policyHash.trans h.policyHash
  monotonicFloor := h.monotonicFloor.trans h'.monotonicFloor
  highestSeqSeen := h.highestSeqSeen.trans h'.highestSeqSeen
  opensSoFar := h.opensSoFar.trans h'.opensSoFar
  opensUnderLease := h.opensUnderLease.trans h'.opensUnderLease
  online := h.online ∘ h'.online

/-! ### One check at a time -/

section Checks

variable {lease : LeaseFacts}

/-- The checks of a decision pass in the narrower context, one after the other. -/
theorem identity (h : c.Closes c') (hc : checkLeaseIdentity lease c' = .ok ()) :
    checkLeaseIdentity lease c = .ok () := by
  simp only [checkLeaseIdentity, Except.check_bind_eq_ok_iff, refuseIf_eq_ok_iff, not_lt, h.device,
    h.policyHash] at hc ⊢
  exact ⟨hc.1, hc.2.1, hc.2.2.1, h.highestSeqSeen.trans hc.2.2.2⟩

theorem tpmClock (h : c.Closes c') (hc : checkTpmClock lease c' = .ok ()) :
    checkTpmClock lease c = .ok () := by
  rwa [checkTpmClock, h.device] at hc

theorem hardwareElapsed (h : c.Closes c') (hc : checkHardwareElapsed lease c' = .ok ()) :
    checkHardwareElapsed lease c = .ok () := by
  rwa [checkHardwareElapsed, h.device, h.now] at hc

theorem network {network : Network} (h : c.Closes c') (hc : checkNetwork network lease c' = .ok ()) :
    checkNetwork network lease c = .ok () := by
  cases network with
  | strictOnline =>
    rw [checkNetwork, refuseIf_eq_ok_iff, Bool.not_eq_false] at hc ⊢
    exact h.online hc
  | lease seconds maxOfflineSeconds => exact hc

/-- Going offline can start the offline window, never end it. -/
theorem offline {network : Network} (h : c.Closes c') (hc : checkOffline network lease c' = .ok ()) :
    checkOffline network lease c = .ok () := by
  rw [checkOffline_eq_ok_iff, h.now] at hc
  rw [checkOffline_eq_ok_iff]
  refine fun honline ↦ hc ?_
  rw [Bool.eq_false_iff] at honline ⊢
  exact mt h.online honline

theorem validity {validity : Validity} (h : c.Closes c') (hc : checkValidity validity c' = .ok ()) :
    checkValidity validity c = .ok () := by
  cases validity with
  | always => rfl
  | window notBefore notAfter => rwa [checkValidity, h.now] at hc
  | fromFirstOpen seconds =>
    rw [checkValidity, h.firstOpenAt, h.now] at hc
    rw [checkValidity]
    cases hfirst : c.firstOpenAt with
    | some first => rwa [hfirst] at hc
    | none =>
      rw [hfirst] at hc
      simp only [refuseIf_eq_ok_iff, Bool.not_eq_false] at hc ⊢
      exact h.online hc

end Checks

theorem opens {limit : Option UInt32} {n n' : UInt32} (hle : n ≤ n') (h : checkOpens limit n' = .ok ()) :
    checkOpens limit n = .ok () := by
  cases limit with
  | none => rfl
  | some max =>
    rw [checkOpens, refuseIf_eq_ok_iff, not_le] at h ⊢
    exact hle.trans_lt h

/-- **What the later context admits, the earlier one admitted.** -/
theorem admits {policy : Policy} {lease : LeaseFacts} {action : Action} (h : c.Closes c')
    (hc : Admits policy lease action c') : Admits policy lease action c where
  understood := hc.understood
  floor := h.monotonicFloor.trans (hc.floor.trans_eq h.now)
  binding := h.device ▸ hc.binding
  identity := h.identity hc.identity
  tpmClock := h.tpmClock hc.tpmClock
  issued := by
    have hissued := hc.issued
    rwa [checkIssued, h.now] at hissued
  network := h.network hc.network
  hardwareElapsed := h.hardwareElapsed hc.hardwareElapsed
  expiry := by
    have hexpiry := hc.expiry
    rwa [checkExpiry, h.now] at hexpiry
  offline := h.offline hc.offline
  validity := h.validity hc.validity
  opens := opens h.opensSoFar hc.opens
  budget := opens h.opensUnderLease hc.budget
  rule := hc.rule

/-- **What is allowed with the later state is allowed with the earlier one.** -/
theorem evaluate_eq_allow {author : Policy} {lease : Option LeaseFacts} {action : Action} {o : Obligations}
    (h : c.Closes c') (hc : evaluate author lease action c' = .allow o) :
    evaluate author lease action c = .allow o := by
  cases lease with
  | none => exact absurd hc (evaluate_none_ne_allow author action c' o)
  | some lease =>
    obtain ⟨hadmits, ho⟩ := evaluate_eq_allow_iff.mp hc
    exact evaluate_eq_allow_iff.mpr ⟨h.admits hadmits, ho⟩

/-- In a run every context closes all those before it. -/
theorem of_run {run : ℕ → Context} (hrun : ∀ n, (run n).Closes (run (n + 1))) {m n : ℕ} (h : m ≤ n) :
    (run m).Closes (run n) := by
  induction n, h using Nat.le_induction with
  | base => exact refl _
  | succ n _ ih => exact ih.trans (hrun n)

end Context.Closes

/-- **Client state can only close access.** What a context with greater counters and floors allows is
allowed without them, with the same obligations; and in a run in which they only grow a denial is never
followed by permission. -/
theorem clientState_closes (author : Policy) (lease : Option LeaseFacts) (action : Action) :
    (∀ c c' o, c.Closes c' → evaluate author lease action c' = .allow o →
        evaluate author lease action c = .allow o) ∧
      ∀ run : ℕ → Context, (∀ n, (run n).Closes (run (n + 1))) →
        ∀ m n reason, m ≤ n → evaluate author lease action (run m) = .deny reason →
          ∃ reason', evaluate author lease action (run n) = .deny reason' := by
  refine ⟨fun c c' o h ↦ h.evaluate_eq_allow, fun run hrun m n reason hmn hdeny ↦ ?_⟩
  cases hlater : evaluate author lease action (run n) with
  | deny reason' => exact ⟨reason', rfl⟩
  | allow o =>
    have hallow := (Context.Closes.of_run hrun hmn).evaluate_eq_allow hlater
    rw [hdeny] at hallow
    cases hallow

end OpenCrate
