import OpenCrate.Data.Except
import OpenCrate.Policy.Basic

/-!
# The access decision

`evaluate` is the sole point where access decisions are made. The server's profile travels inside
the lease and is composed with the author's policy here, by `intersect`, before the first check; the
author's own policy is kept to tell who denied an action.

The checks run in a fixed order and the first one that fails names the denial. Each is a definition
of its own over exactly the data it reads, so that a statement about one check does not depend on
the others.
-/

namespace OpenCrate

open Except (refuseIf)

/-! ### Composition of two policies -/

/-- A validity interval permitting access at no moment: it starts after it ends. -/
def impossible : Validity := .window Int64.maxValue Int64.minValue

/-- Intersect validity periods without widening either operand. A window and a duration from first
open cannot be expressed together, and are denied rather than dropped. -/
def tightenValidity : Validity → Validity → Validity
  | .always, other => other
  | other, .always => other
  | .window aFrom aTo, .window bFrom bTo => .window (max aFrom bFrom) (min aTo bTo)
  | .fromFirstOpen a, .fromFirstOpen b => .fromFirstOpen (min a b)
  | .window _ _, .fromFirstOpen _ => impossible
  | .fromFirstOpen _, .window _ _ => impossible

/-- The stricter of two optional limits. -/
def tightenMaxOpens : Option UInt32 → Option UInt32 → Option UInt32
  | some a, some b => some (min a b)
  | some a, none => some a
  | none, b => b

/-- The stricter of two network requirements: `strictOnline` absorbs. -/
def tightenNetwork : Network → Network → Network
  | .strictOnline, _ => .strictOnline
  | _, .strictOnline => .strictOnline
  | .lease a ao, .lease b bo => .lease (min a b) (min ao bo)

/-- Intersection of the author's policy with what the server permits. -/
def intersect (author server : Policy) : Policy where
  actions := author.actions.retain fun action rule ↦
    rule = .allow && (server.actions.get? action).getD .deny = .allow
  validity := tightenValidity author.validity server.validity
  maxOpens := tightenMaxOpens author.maxOpens server.maxOpens
  network := tightenNetwork author.network server.network
  minBinding := max author.minBinding server.minBinding
  actionBinding := BTreeMap.mergeWith (fun slot binding ↦ max (slot.getD binding) binding)
    author.actionBinding server.actionBinding
  watermark := author.watermark || server.watermark
  unknownActions := author.unknownActions.union server.unknownActions

/-- The binding level trusted by the decision. Only the attestation in the lease raises it, and
never for a software binding. -/
def effectiveBinding (localBinding : Binding) (lease : Option LeaseFacts) : Binding :=
  match localBinding, lease.any fun l ↦ l.attested.isSome with
  | .software, _ => .software
  | .hardware, true | .hardwareAttested, true => .hardwareAttested
  | .hardware, false | .hardwareAttested, false => .hardware

/-! ### The checks, in the order they run -/

/-- Permitted skew between the clocks of device and server, in seconds. -/
def maxClockSkewSeconds : Int64 := 300

/-- A policy with an action this client does not know is refused as a whole. -/
def checkUnderstood (unknownActions : BTreeSet UInt16) : Except DenyReason Unit :=
  match unknownActions.iter.head? with
  | some unknown => .error (.policyNotFullyUnderstood unknown)
  | none => .ok ()

/-- Time does not move backward. -/
def checkFloor (ctx : Context) : Except DenyReason Unit :=
  refuseIf (ctx.now < ctx.monotonicFloor) .clockRollback

/-- The device is bound as strongly as the action requires. -/
def checkBinding (required actual : Binding) : Except DenyReason Unit :=
  refuseIf (actual < required) (.bindingTooWeak required actual)

/-- The lease is live, for this device, for this policy, and not an older one. -/
def checkLeaseIdentity (lease : LeaseFacts) (ctx : Context) : Except DenyReason Unit := do
  refuseIf (lease.revoked = true) .revoked
  refuseIf (digestEq lease.deviceFingerprint ctx.device.fingerprint = false) .wrongDevice
  refuseIf (digestEq lease.policyHash ctx.policyHash = false) .policyHashMismatch
  refuseIf (lease.seq < ctx.highestSeqSeen) (.leaseRollback ctx.highestSeqSeen lease.seq)

/-- A lease bound to hardware time needs a reading, and neither component may have decreased. -/
def checkTpmClock (lease : LeaseFacts) (ctx : Context) : Except DenyReason Unit :=
  match lease.tpmClock with
  | none => .ok ()
  | some issued =>
    match ctx.device.tpmClock with
    | .read presented =>
      refuseIf (presented.clockMs < issued.clockMs ∨ presented.resetCount < issued.resetCount)
        (.tpmClockRollback issued presented)
    | .absent => .error .tpmClockMissing
    | .unreadable => .error .tpmClockUnreadable

/-- A lease is not presented before its issue, up to the permitted skew. -/
def checkIssued (lease : LeaseFacts) (ctx : Context) : Except DenyReason Unit :=
  refuseIf (maxClockSkewSeconds < lease.issuedAt.saturatingSub ctx.now)
    (.leaseIssuedInTheFuture lease.issuedAt ctx.now)

/-- The length of the lease window the server granted. -/
def LeaseFacts.granted (lease : LeaseFacts) : Int64 :=
  lease.expiresAt.saturatingSub lease.issuedAt

/-- Strict policies need the network; otherwise the lease may not be longer than allowed. -/
def checkNetwork (network : Network) (lease : LeaseFacts) (ctx : Context) :
    Except DenyReason Unit :=
  match network with
  | .strictOnline => refuseIf (ctx.online = false) .offlineNotPermitted
  | .lease seconds _ =>
    refuseIf (lease.granted < 0 ∨ seconds < lease.granted)
      (.leaseOutlivesPolicy seconds lease.granted)

/-- Hardware time does not outrun wall time by more than the permitted skew. -/
def checkHardwareElapsed (lease : LeaseFacts) (ctx : Context) : Except DenyReason Unit :=
  match lease.tpmClock, ctx.device.tpmClock.reading with
  | some issued, some presented =>
    let hardwareMs := presented.clockMs.saturatingSub issued.clockMs
    let wallSeconds := ctx.now.saturatingSub lease.issuedAt
    let wallMs := (wallSeconds.toUInt64?.getD 0).saturatingMul 1000
    let slackMs := (maxClockSkewSeconds.toUInt64?.getD 0).saturatingMul 1000
    refuseIf (wallMs.saturatingAdd slackMs < hardwareMs)
      (.hardwareClockOutranWallClock hardwareMs wallMs)
  | _, _ => .ok ()

/-- The lease has not run out. -/
def checkExpiry (lease : LeaseFacts) (ctx : Context) : Except DenyReason Unit :=
  refuseIf (lease.expiresAt < ctx.now) .expired

/-- Offline, the device has spoken to the server recently enough. -/
def checkOffline (network : Network) (lease : LeaseFacts) (ctx : Context) :
    Except DenyReason Unit :=
  match ctx.online, network with
  | false, .lease _ maxOfflineSeconds =>
    refuseIf (maxOfflineSeconds < ctx.now.saturatingSub lease.issuedAt)
      (.offlineTooLong maxOfflineSeconds (ctx.now.saturatingSub lease.issuedAt))
  | _, _ => .ok ()

/-- The moment lies in the validity period of the policy. -/
def checkValidity (validity : Validity) (ctx : Context) : Except DenyReason Unit :=
  match validity with
  | .always => .ok ()
  | .window notBefore notAfter => do
    refuseIf (ctx.now < notBefore) .notYetValid
    refuseIf (notAfter < ctx.now) .expired
  | .fromFirstOpen seconds =>
    match ctx.firstOpenAt with
    | some first => refuseIf (first.saturatingAdd seconds < ctx.now) .expired
    | none => refuseIf (ctx.online = false) .firstOpenNotRecorded

/-- A counter is still below its limit, if there is one. -/
def checkOpens (limit : Option UInt32) (opens : UInt32) : Except DenyReason Unit :=
  match limit with
  | some max => refuseIf (max ≤ opens) .openLimitReached
  | none => .ok ()

/-- The composed policy permits the action; if it does not, the author's own policy tells who
denied it. -/
def checkRule (author policy : Policy) (action : Action) : Except DenyReason Unit :=
  refuseIf (policy.rule action ≠ .allow)
    (if author.rule action = .allow then .actionTightenedByServer action
      else .actionNotPermitted action)

/-! ### The decision -/

/-- What an allowed action obliges the client to. -/
def obligationsOf (policy : Policy) : Obligations where
  watermark := policy.watermark
  blockScreenCapture := policy.rule .screenshot != .allow
  suppressCrashDumps := true

/-- The checks that need a lease, over the policy already composed, up to the action's own rule. -/
def checkLeased (policy : Policy) (lease : LeaseFacts) (ctx : Context) :
    Except DenyReason Unit := do
  checkLeaseIdentity lease ctx
  checkTpmClock lease ctx
  checkIssued lease ctx
  checkNetwork policy.network lease ctx
  checkHardwareElapsed lease ctx
  checkExpiry lease ctx
  checkOffline policy.network lease ctx
  checkValidity policy.validity ctx
  checkOpens policy.maxOpens ctx.opensSoFar
  checkOpens lease.opensRemaining ctx.opensUnderLease

/-- The policy a decision enforces: the author's, tightened by the profile in the lease. -/
def composed (author : Policy) (lease : Option LeaseFacts) : Policy :=
  ((lease.bind LeaseFacts.serverPolicy).map (intersect author)).getD author

/-- The decision, with the denial reason as an error. -/
def decideAccess (author : Policy) (lease : Option LeaseFacts) (action : Action)
    (ctx : Context) : Except DenyReason Obligations := do
  let policy := composed author lease
  checkUnderstood policy.unknownActions
  checkFloor ctx
  checkBinding (policy.bindingFor action) (effectiveBinding ctx.device.binding lease)
  match lease with
  | none => .error .noLease
  | some lease =>
    checkLeased policy lease ctx
    checkRule author policy action
    .ok (obligationsOf policy)

/-- Whether an action on a file is permitted, and with which obligations. -/
def evaluate (author : Policy) (lease : Option LeaseFacts) (action : Action)
    (ctx : Context) : Verdict :=
  match decideAccess author lease action ctx with
  | .ok obligations => .allow obligations
  | .error reason => .deny reason

end OpenCrate
