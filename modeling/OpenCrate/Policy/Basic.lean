import OpenCrate.Data.BTreeMap
import OpenCrate.Data.Bytes
import OpenCrate.Data.MachineInt

/-!
# The policy data model

The author's policy, the server's lease, the device and the context a decision depends on, as in
`oc-policy`. The map of a policy stores only what it names: an action without an entry is denied
(`Policy.rule`), and an action without a binding entry adds no requirement of its own
(`Policy.bindingFor`).

`Context` omits the source of `now`, which no decision reads.
-/

namespace OpenCrate

/-- A moment in Unix epoch seconds. -/
abbrev Timestamp := Int64

/-- Compare two digests by accumulating the differences of all bytes. -/
def digestEq (a b : Digest) : Bool :=
  ((a.toList.zip b.toList).foldl (fun diff p ↦ diff ||| (p.1 ^^^ p.2)) (0 : UInt8)) == 0

/-- An action on a protected file. -/
inductive Action where
  | view
  | edit
  | print
  | clipboard
  | exportAction
  | screenshot
  deriving DecidableEq, Repr

namespace Action

/-- The six actions in declaration order. -/
def all : List Action := [view, edit, print, clipboard, exportAction, screenshot]

/-- The list of actions is complete. -/
theorem mem_all (a : Action) : a ∈ all := by cases a <;> decide

theorem ctorIdx_injective : Function.Injective Action.ctorIdx := by
  intro a b h
  cases a <;> cases b <;> first | rfl | exact absurd h (by decide)

instance : LinearOrder Action := LinearOrder.lift' Action.ctorIdx ctorIdx_injective

end Action

/-- Permission for an action. -/
inductive Rule where
  | allow
  | deny
  deriving DecidableEq, Repr

/-- Basis on which the server accepted a device key attestation. -/
inductive Attestation where
  | vendorCertificate
  | enrolledEk
  deriving DecidableEq, Repr

/-- Strength of device binding, in increasing order. -/
inductive Binding where
  | software
  | hardware
  | hardwareAttested
  deriving DecidableEq, Repr

namespace Binding

theorem ctorIdx_injective : Function.Injective Binding.ctorIdx := by
  intro a b h
  cases a <;> cases b <;> first | rfl | exact absurd h (by decide)

instance : LinearOrder Binding := LinearOrder.lift' Binding.ctorIdx ctorIdx_injective

/-- Every binding is between the two outermost ones. -/
theorem software_le (b : Binding) : software ≤ b := by cases b <;> decide

theorem le_hardwareAttested (b : Binding) : b ≤ hardwareAttested := by cases b <;> decide

end Binding

/-- Access validity period. -/
inductive Validity where
  | always
  | window (notBefore notAfter : Timestamp)
  | fromFirstOpen (seconds : Int64)
  deriving DecidableEq

/-- Network requirement. -/
inductive Network where
  /-- Every open requires contacting the server. -/
  | strictOnline
  /-- Offline use is allowed while the lease is valid. -/
  | lease (seconds maxOfflineSeconds : Int64)
  deriving DecidableEq

/-- The author's signed policy. -/
structure Policy where
  /-- An absent action means denial. -/
  actions : BTreeMap Action Rule
  validity : Validity
  maxOpens : Option UInt32
  network : Network
  minBinding : Binding
  /-- Binding requirement of single actions; an entry can only raise `minBinding`. -/
  actionBinding : BTreeMap Action Binding
  watermark : Bool
  /-- Action tags this client does not know. -/
  unknownActions : BTreeSet UInt16
  deriving DecidableEq

namespace Policy

/-- A policy allowing nothing. -/
def denyAll : Policy where
  actions := ∅
  validity := .always
  maxOpens := none
  network := .strictOnline
  minBinding := .software
  actionBinding := ∅
  watermark := false
  unknownActions := ∅

/-- The binding level an action requires: the maximum of the policy's and the action's own. -/
def bindingFor (p : Policy) (action : Action) : Binding :=
  max p.minBinding ((p.actionBinding.get? action).getD .software)

/-- Permission for an action. No entry means denial. -/
def rule (p : Policy) (action : Action) : Rule :=
  (p.actions.get? action).getD .deny

/-- Allow an action. -/
def allow (p : Policy) (action : Action) : Policy :=
  { p with actions := p.actions.insert action .allow }

/-- A server profile that tightens nothing. -/
def noTightening : Policy :=
  { Action.all.foldl allow denyAll with
    network := .lease Int64.maxValue Int64.maxValue }

end Policy

/-- TPM reset counter and persistent clock reading. -/
structure TpmClock where
  resetCount : UInt32
  /-- Cumulative milliseconds since the last TPM clear. -/
  clockMs : UInt64
  deriving DecidableEq

/-- What the device knows about its hardware clock. -/
inductive DeviceClock where
  | read (clock : TpmClock)
  | absent
  | unreadable
  deriving DecidableEq

/-- The reading, if obtained. -/
def DeviceClock.reading : DeviceClock → Option TpmClock
  | .read clock => some clock
  | .absent | .unreadable => none

/-- Facts about the device making the decision. -/
structure DeviceFacts where
  fingerprint : Digest
  binding : Binding
  tpmClock : DeviceClock
  deriving DecidableEq

/-- A lease issued by the server. -/
structure LeaseFacts where
  deviceFingerprint : Digest
  policyHash : Digest
  seq : UInt64
  epoch : UInt64
  issuedAt : Timestamp
  expiresAt : Timestamp
  opensRemaining : Option UInt32
  revoked : Bool
  /-- How the server tightened the author's policy, under the server's signature. -/
  serverPolicy : Option Policy
  attested : Option Attestation
  tpmClock : Option TpmClock
  deriving DecidableEq

/-- Everything else a decision depends on. -/
structure Context where
  now : Timestamp
  monotonicFloor : Timestamp
  firstOpenAt : Option Timestamp
  opensSoFar : UInt32
  opensUnderLease : UInt32
  device : DeviceFacts
  highestSeqSeen : UInt64
  online : Bool
  policyHash : Digest
  deriving DecidableEq

/-- What the client must do when the action is allowed. -/
structure Obligations where
  watermark : Bool
  blockScreenCapture : Bool
  suppressCrashDumps : Bool
  deriving DecidableEq

/-- Why an action is denied. -/
inductive DenyReason where
  | actionNotPermitted (action : Action)
  | actionTightenedByServer (action : Action)
  | policyNotFullyUnderstood (unknown : UInt16)
  | clockRollback
  | leaseRollback (seen presented : UInt64)
  | tpmClockRollback (issued presented : TpmClock)
  | tpmClockMissing
  | tpmClockUnreadable
  | hardwareClockOutranWallClock (hardwareMs wallMs : UInt64)
  | notYetValid
  | expired
  | revoked
  | openLimitReached
  | offlineNotPermitted
  | noLease
  | wrongDevice
  | policyHashMismatch
  | bindingTooWeak (required actual : Binding)
  | leaseIssuedInTheFuture (issuedAt now : Timestamp)
  | leaseOutlivesPolicy (allowedSeconds grantedSeconds : Int64)
  | offlineTooLong (allowedSeconds elapsedSeconds : Int64)
  | firstOpenNotRecorded
  deriving DecidableEq

/-- The decision. -/
inductive Verdict where
  | allow (obligations : Obligations)
  | deny (reason : DenyReason)
  deriving DecidableEq

/-- One set of obligations is at least as strict as another: whatever the second imposes on the
user, the first imposes too. -/
def Obligations.AtLeastAsStrict (o o' : Obligations) : Prop :=
  (o'.watermark = true → o.watermark = true) ∧
    (o'.blockScreenCapture = true → o.blockScreenCapture = true)

instance (o o' : Obligations) : Decidable (o.AtLeastAsStrict o') :=
  inferInstanceAs (Decidable (_ ∧ _))

end OpenCrate
