import OpenCrate.Protocol.ControlSigned

/-!
# Chains of authority

`verify_chain` of `control`: a client that knows the lease key of a container follows the transfers
from there. No document of the chain declares itself trusted: the first binding is signed by the key
of the container, and each binding after it is carried by a certificate that the roster of the binding
before it has signed.

What one transfer does is said once (`Hop`, `followTransfer_eq_ok_iff`); a chain is a sequence of hops
(`Follows`), and everything about chains is proved by induction on it.
-/

namespace OpenCrate.Protocol

open OpenCrate.Format OpenCrate.Crypto
open Except (refuseIf okOr)

namespace Control

/-- What the server became after a transfer chain. -/
structure Effective where
  /-- Binding of the active epoch. -/
  binding : Binding
  /-- Its signed bytes. -/
  bytes : List UInt8
  /-- Time of the last transition. -/
  transitionAt : Option Int64
  /-- Treatment of the previous epoch's leases. -/
  oldLeases : Option OldLeases
  /-- Previous epoch keys in order. -/
  previousKeys : List Digest
  deriving DecidableEq

/-- Why the chain was rejected. -/
inductive ChainError where
  /-- The first binding does not verify against the anchor. -/
  | notAnchored
  /-- The certificate was not signed by the previous epoch's roster. -/
  | notAuthorized (have_ need : UInt8)
  /-- Nonconsecutive epochs, changed identity or wrong key. -/
  | broken (why : String)
  /-- Document layout, with the refusal whose text is reported. -/
  | malformed (refusal : FormatError)
  /-- The certificate was expired at verification time. -/
  | expired (expiresAt now : Int64)
  deriving DecidableEq

variable (ed : Ed25519)

/-- The refusal of the first binding. -/
def anchorError : FormatError → ChainError
  | .badHeaderSignature => .notAnchored
  | other => .malformed other

/-- The refusal of the binding of a new epoch. -/
def successorError : FormatError → ChainError
  | .badHeaderSignature => .broken "привязка новой эпохи не подписана своим ключом"
  | other => .malformed other

/-- How many of the signers are in the roster. -/
def rosterSigners (roster signers : List Digest) : UInt8 :=
  let count := (signers.filter fun key ↦ key ∈ roster).length
  if count < 2 ^ 8 then UInt8.ofNat count else 255

/-- One transfer of a chain. -/
def followTransfer (now : Int64) (current : Effective) (signed : List UInt8) :
    Except ChainError Effective := do
  let (transfer, signers) ← (openTransfer ed signed).mapError .malformed
  refuseIf (transfer.authorityId ≠ current.binding.authorityId)
    (.broken "тождество сервера сменилось")
  refuseIf (transfer.fromEpoch ≠ current.binding.epoch)
    (.broken "сертификат выписан не от действующей эпохи")
  refuseIf (transfer.fromLease ≠ current.binding.leasePublic)
    (.broken "сертификат называет другой прежний ключ")
  refuseIf (transfer.expiresAt < now) (.expired transfer.expiresAt now)
  let have_ := rosterSigners current.binding.roster signers
  refuseIf (current.binding.roster = [] ∨ current.binding.threshold = 0 ∨
    have_ < current.binding.threshold) (.notAuthorized have_ current.binding.threshold)
  -- the new binding is verified with its own key, which the certificate carries
  let next ← (Binding.peek transfer.binding).mapError .malformed
  let next ← (Binding.open_ ed transfer.binding next.leasePublic).mapError successorError
  refuseIf (next.epoch ≠ transfer.toEpoch ∨ next.authorityId ≠ transfer.authorityId)
    (.broken "привязка новой эпохи не та, что названа сертификатом")
  .ok ⟨next, transfer.binding, some transfer.transitionAt, some transfer.oldLeases,
    current.previousKeys ++ [current.binding.leasePublic]⟩

/-- Verify a chain: the first binding against the anchor, each transfer against the previous epoch's
roster. -/
def verifyChain (first : List UInt8) (transfers : List (List UInt8)) (anchor : Digest) (now : Int64) :
    Except ChainError Effective := do
  let binding ← (Binding.open_ ed first anchor).mapError anchorError
  transfers.foldlM (followTransfer ed now) ⟨binding, first, none, none, []⟩

/-! ### One transfer -/

/-- **What one transfer needs.** A certificate that names the binding in force, is signed by enough of
its controllers and carries the binding of the next epoch, signed by its own key. -/
structure Hop (now : Int64) (before : Binding) (signed : List UInt8) (transfer : Transfer)
    (after : Binding) : Prop where
  /-- Every signature of the envelope covers the body, and enough different controllers signed. -/
  signers : ∃ signatures body, splitRequest signed = .ok (signatures, body) ∧
    Transfer.decodeBody body = .ok transfer ∧ (signatures.map Prod.fst).Nodup ∧
    (∀ s ∈ signatures, verify ed s.1 (transcript .authorityTransfer body) s.2 = .ok ()) ∧
    before.threshold.toNat ≤
      (signatures.filter fun s ↦ s.1 ∈ before.roster).length
  threshold : 1 ≤ before.threshold.toNat
  /-- The certificate names the binding in force. -/
  names : transfer.authorityId = before.authorityId ∧ transfer.fromEpoch = before.epoch ∧
    transfer.fromLease = before.leasePublic
  current : now ≤ transfer.expiresAt
  /-- The carried binding is signed by the key it names. -/
  selfSigned : Binding.peek transfer.binding = .ok after ∧
    ∃ sig body, splitSigned transfer.binding = .ok (sig, body) ∧
      verify ed after.leasePublic (transcript .authorityBinding body) sig = .ok ()
  authorityId : after.authorityId = before.authorityId
  epoch : after.epoch.toNat = before.epoch.toNat + 1

/-- The server after one more transfer. -/
def Effective.after (current : Effective) (hop : Transfer × Binding) : Effective :=
  ⟨hop.2, hop.1.binding, some hop.1.transitionAt, some hop.1.oldLeases,
    current.previousKeys ++ [current.binding.leasePublic]⟩

variable {ed} {now : Int64}

/-- The count of the signers on a roster does not overflow. -/
theorem toNat_rosterSigners {roster signers : List Digest} (h : signers.length ≤ maxSigners) :
    (rosterSigners roster signers).toNat = (signers.filter fun key ↦ key ∈ roster).length := by
  have hcount : (signers.filter fun key ↦ key ∈ roster).length < 2 ^ 8 :=
    ((List.length_filter_le _ _).trans h).trans_lt (by decide)
  rw [rosterSigners]
  simp only [if_pos hcount]
  exact UInt8.toNat_ofNat_of_lt' hcount

/-- A certificate that was read names two epochs in a row. -/
theorem Transfer.toNat_toEpoch {body : List UInt8} {transfer : Transfer}
    (h : decodeBody body = .ok transfer) :
    transfer.toEpoch.toNat = transfer.fromEpoch.toNat + 1 := by
  obtain ⟨written, -, hbody⟩ := decodeBody_eq_ok_iff.1 h
  have hcheck := (body_eq_ok_iff.1 hbody).1
  simp only [check, Except.bind_eq_ok_iff, Except.okOr_eq_ok_iff, Except.refuseIf_eq_ok_iff,
    not_not] at hcheck
  obtain ⟨next, hnext, -, hto, -⟩ := hcheck
  rw [hto]
  exact UInt64.tryFrom_eq_some_iff.1 hnext

/-- **One transfer is a hop.** -/
theorem followTransfer_eq_ok_iff {current next : Effective} {signed : List UInt8} :
    followTransfer ed now current signed = .ok next ↔
      ∃ transfer after, Hop ed now current.binding signed transfer after ∧
        next = current.after (transfer, after) := by
  simp only [followTransfer, Except.bind_eq_ok_iff, Except.mapError_eq_ok_iff,
    Except.refuseIf_eq_ok_iff, Prod.exists, openTransfer_eq_ok_iff, Binding.open_eq_ok_iff]
  constructor
  · rintro ⟨transfer, signers, ⟨signatures, body, hsplit, hverify, hdecode, rfl⟩, ⟨⟩, hid, ⟨⟩, hfrom,
      ⟨⟩, hlease, ⟨⟩, hexpires, ⟨⟩, hquorum, named, hnamed, after, ⟨hsigned, hpeek, hself⟩, ⟨⟩, hnext,
      hok⟩
    obtain ⟨-, -, -, hlength, hchain⟩ := splitRequest_eq_ok_iff.1 hsplit
    push Not at hid hfrom hlease hquorum hnext
    -- the binding is read twice: once to compare it, and once to check its signature
    obtain rfl : named = after := by
      rw [hnamed] at hpeek
      exact Except.ok.inj hpeek
    refine ⟨transfer, named, ⟨⟨signatures, body, hsplit, hdecode, ?_, hverify, ?_⟩, ?_,
      ⟨hid, hfrom, hlease⟩, Int64.not_lt.1 hexpires, ⟨hnamed, hsigned⟩, hnext.2.trans hid, ?_⟩,
      (Except.ok.inj hok).symm⟩
    -- the keys of the signers ascend
    · exact nodup_of_isChain_keyLt ((List.isChain_map _).2 hchain)
    · have hle := UInt8.not_lt.1 hquorum.2.2
      rw [UInt8.le_iff_toNat_le, toNat_rosterSigners (by simpa using hlength), List.filter_map,
        List.length_map] at hle
      exact hle
    · exact Nat.one_le_iff_ne_zero.2 fun h ↦ hquorum.2.1 (UInt8.toNat_inj.1 h)
    · rw [hnext.1, Transfer.toNat_toEpoch hdecode, hfrom]
  · rintro ⟨transfer, after, hop, rfl⟩
    obtain ⟨signatures, body, hsplit, hdecode, -, hverify, hcount⟩ := hop.signers
    obtain ⟨-, -, -, hlength, -⟩ := splitRequest_eq_ok_iff.1 hsplit
    obtain ⟨hid, hfrom, hlease⟩ := hop.names
    obtain ⟨hpeek, hsigned⟩ := hop.selfSigned
    have hto : after.epoch = transfer.toEpoch := by
      rw [← UInt64.toNat_inj, hop.epoch, Transfer.toNat_toEpoch hdecode, hfrom]
    refine ⟨transfer, _, ⟨signatures, body, hsplit, hverify, hdecode, rfl⟩, ⟨⟩, not_not.2 hid, ⟨⟩,
      not_not.2 hfrom, ⟨⟩, not_not.2 hlease, ⟨⟩, Int64.not_lt.2 hop.current, ⟨⟩, ?_, after, hpeek, after,
      ⟨hsigned, hpeek, rfl⟩, ⟨⟩, ?_, rfl⟩
    · have hthreshold := hop.threshold
      rintro (hnil | hzero | hfew)
      · simp only [hnil, List.not_mem_nil, decide_false, List.filter_false, List.length_nil] at hcount
        omega
      · rw [hzero] at hthreshold
        exact absurd hthreshold (by decide)
      · rw [UInt8.lt_iff_toNat_lt, toNat_rosterSigners (by simpa using hlength), List.filter_map,
          List.length_map] at hfew
        exact absurd hcount (not_le.2 hfew)
    · rintro (hne | hne)
      · exact hne hto
      · exact hne (hop.authorityId.trans hid.symm)

/-! ### The chain -/

variable (ed now)

/-- A chain of hops from a binding: the certificate of each hop is signed by the roster of the binding
before it. -/
inductive Follows : Binding → List (List UInt8) → List (Transfer × Binding) → Prop
  | nil (binding : Binding) : Follows binding [] []
  | cons {before after : Binding} {signed : List UInt8} {transfer : Transfer}
      {rest : List (List UInt8)} {hops : List (Transfer × Binding)}
      (hop : Hop ed now before signed transfer after) (follows : Follows after rest hops) :
      Follows before (signed :: rest) ((transfer, after) :: hops)

variable {ed now}

/-- **A run over the transfers is a list of hops**, each accepted on top of the binding before it. -/
theorem foldlM_followTransfer_eq_ok_iff {current e : Effective} {transfers : List (List UInt8)} :
    transfers.foldlM (followTransfer ed now) current = .ok e ↔
      ∃ hops, Follows ed now current.binding transfers hops ∧ e = hops.foldl Effective.after current := by
  induction transfers generalizing current with
  | nil =>
    rw [Except.foldlM_nil, Except.ok.injEq]
    constructor
    · rintro rfl
      exact ⟨[], .nil _, rfl⟩
    · rintro ⟨hops, ⟨⟩, rfl⟩
      rfl
  | cons signed rest ih =>
    simp only [List.foldlM_cons, Except.bind_eq_ok_iff, followTransfer_eq_ok_iff]
    constructor
    · rintro ⟨next, ⟨transfer, after, hop, rfl⟩, hrest⟩
      obtain ⟨hops, hfollows, rfl⟩ := ih.1 hrest
      exact ⟨_, .cons hop hfollows, rfl⟩
    · rintro ⟨hops, hfollows, rfl⟩
      cases hfollows with
      | cons hop hfollows => exact ⟨_, ⟨_, _, hop, rfl⟩, ih.2 ⟨_, hfollows, rfl⟩⟩

/-- The state before the first transfer. -/
def Effective.start (binding : Binding) (first : List UInt8) : Effective :=
  ⟨binding, first, none, none, []⟩

/-- **A chain is accepted exactly when its first binding opens under the anchor and its transfers are
hops from there.** -/
theorem verifyChain_eq_ok_iff {first : List UInt8} {transfers : List (List UInt8)} {anchor : Digest}
    {e : Effective} :
    verifyChain ed first transfers anchor now = .ok e ↔
      ∃ binding hops, Binding.open_ ed first anchor = .ok binding ∧
        Follows ed now binding transfers hops ∧
        e = hops.foldl Effective.after (Effective.start binding first) := by
  simp only [verifyChain, Except.bind_eq_ok_iff, Except.mapError_eq_ok_iff,
    foldlM_followTransfer_eq_ok_iff]
  constructor
  · rintro ⟨binding, hopen, hops, hfollows, rfl⟩
    exact ⟨binding, hops, hopen, hfollows, rfl⟩
  · rintro ⟨binding, hops, hopen, hfollows, rfl⟩
    exact ⟨binding, hopen, hops, hfollows, rfl⟩

namespace Follows

variable {before : Binding} {transfers : List (List UInt8)} {hops : List (Transfer × Binding)}

/-- Every transfer is one hop. -/
theorem length_eq (h : Follows ed now before transfers hops) : hops.length = transfers.length := by
  induction h with
  | nil => rfl
  | cons _ _ ih => rw [List.length_cons, List.length_cons, ih]

/-- Each hop raises the epoch by one. -/
theorem toNat_epoch (h : Follows ed now before transfers hops) :
    (((before :: hops.map Prod.snd).getLast (List.cons_ne_nil _ _)).epoch).toNat =
      before.epoch.toNat + transfers.length := by
  induction h with
  | nil => rfl
  | cons hop _ ih =>
    rw [List.map_cons, List.getLast_cons (List.cons_ne_nil _ _), ih, hop.epoch, List.length_cons]
    omega

/-- The first transfers of a chain are a chain. -/
theorem take (h : Follows ed now before transfers hops) (n : ℕ) :
    Follows ed now before (transfers.take n) (hops.take n) := by
  induction h generalizing n with
  | nil => simpa using Follows.nil _
  | cons hop _ ih =>
    cases n with
    | zero => exact .nil _
    | succ n => exact .cons hop (ih n)

end Follows

/-! ### What a chain leaves -/

namespace Effective

/-- What the last step of a chain leaves in place of what there was. -/
theorem foldl_after_eq_getLast {α : Type} {part : Effective → α} {given : Transfer × Binding → α}
    (hafter : ∀ current hop, part (after current hop) = given hop) (current : Effective)
    (hops : List (Transfer × Binding)) :
    part (hops.foldl after current) = (part current :: hops.map given).getLast (List.cons_ne_nil _ _) := by
  induction hops generalizing current with
  | nil => rfl
  | cons hop hops ih =>
    simp only [List.foldl_cons, ih, hafter, List.map_cons, List.getLast_cons (List.cons_ne_nil _ _)]

/-- After the hops the last binding holds. -/
theorem binding_foldl_after (current : Effective) (hops : List (Transfer × Binding)) :
    (hops.foldl after current).binding =
      (current.binding :: hops.map Prod.snd).getLast (List.cons_ne_nil _ _) :=
  foldl_after_eq_getLast (fun _ _ ↦ rfl) current hops

/-- So do its bytes. -/
theorem bytes_foldl_after (current : Effective) (hops : List (Transfer × Binding)) :
    (hops.foldl after current).bytes =
      (current.bytes :: hops.map fun hop ↦ hop.1.binding).getLast (List.cons_ne_nil _ _) :=
  foldl_after_eq_getLast (fun _ _ ↦ rfl) current hops

/-- The keys of the bindings before it are kept in their order. -/
theorem previousKeys_foldl_after (current : Effective) (hops : List (Transfer × Binding)) :
    (hops.foldl after current).previousKeys =
      current.previousKeys ++
        (current.binding :: hops.map Prod.snd).dropLast.map Binding.leasePublic := by
  induction hops generalizing current with
  | nil => simp
  | cons hop hops ih =>
    rw [List.foldl_cons, ih, List.map_cons, List.dropLast_cons_cons, List.map_cons, after,
      List.append_assoc]
    rfl

end Effective

/-- **Trust comes from the rosters a chain inherits.** -/
theorem verifyChain_trusted {first : List UInt8} {transfers : List (List UInt8)} {anchor : Digest}
    {e : Effective} (h : verifyChain ed first transfers anchor now = .ok e) :
    ∃ (start : Binding) (hops : List (Transfer × Binding)),
      ((∃ sig body, splitSigned first = .ok (sig, body) ∧
        verify ed anchor (transcript .authorityBinding body) sig = .ok ()) ∧
        Binding.peek first = .ok start ∧ start.leasePublic = anchor) ∧
      Follows ed now start transfers hops ∧
      e.binding = (start :: hops.map Prod.snd).getLast (List.cons_ne_nil _ _) ∧
      e.bytes = (first :: hops.map fun hop ↦ hop.1.binding).getLast (List.cons_ne_nil _ _) ∧
      e.previousKeys = (start :: hops.map Prod.snd).dropLast.map Binding.leasePublic ∧
      e.binding.epoch.toNat = start.epoch.toNat + transfers.length ∧
      ∀ taken, taken <+: transfers → ∃ e', verifyChain ed first taken anchor now = .ok e' := by
  obtain ⟨start, hops, hopen, hfollows, rfl⟩ := verifyChain_eq_ok_iff.1 h
  refine ⟨start, hops, Binding.open_eq_ok_iff.1 hopen, hfollows,
    Effective.binding_foldl_after _ _, Effective.bytes_foldl_after _ _, ?_, ?_, ?_⟩
  · rw [Effective.previousKeys_foldl_after]
    rfl
  · rw [Effective.binding_foldl_after]
    exact hfollows.toNat_epoch
  · intro taken htaken
    rw [List.prefix_iff_eq_take.1 htaken]
    exact ⟨_, verifyChain_eq_ok_iff.2 ⟨start, _, hopen, hfollows.take _, rfl⟩⟩

/-- The lease key of the second epoch. -/
def secondLease : Digest := samplePublicKey

/-- The lease key of the third epoch. -/
def thirdLease : Digest :=
  ⟨[0x65, 0xe8, 0xf9, 0xb0, 0xbc, 0x6e, 0xae, 0x12, 0x41, 0x69, 0xf0, 0x57, 0x6f, 0x97, 0x36,
    0x2d, 0x29, 0x5a, 0x8c, 0xf5, 0xf7, 0x70, 0xb4, 0x5e, 0x14, 0x35, 0x7c, 0xe6, 0x47, 0xd3,
    0x3e, 0xec], rfl⟩

/-- The binding of the second epoch. -/
def secondBinding : Binding := { sampleBinding with epoch := 1, leasePublic := secondLease }

/-- The binding of the third epoch. -/
def thirdBinding : Binding := { sampleBinding with epoch := 2, leasePublic := thirdLease }

/-- The signature of the binding of the second epoch. -/
def secondBindingSignature : Signature :=
  ⟨[0xc0, 0x7e, 0x8b, 0x92, 0x7b, 0xdc, 0x51, 0xcd, 0x76, 0x60, 0xfb, 0x92, 0xe5, 0x92, 0xc8,
    0x30, 0x74, 0xf0, 0xa0, 0x13, 0x09, 0x85, 0xea, 0x8c, 0x16, 0xad, 0x60, 0xb4, 0x4d, 0x80,
    0x3c, 0x2a, 0x05, 0x7b, 0x4f, 0x42, 0xa0, 0xf9, 0xa9, 0x8a, 0x3c, 0x0c, 0x2b, 0xb4, 0xfe,
    0x89, 0x0e, 0xa4, 0x93, 0x39, 0x24, 0x2e, 0x43, 0x2f, 0xf7, 0x05, 0x92, 0x10, 0xaf, 0xc8,
    0x97, 0x81, 0xc5, 0x0e], rfl⟩

/-- The signature of the binding of the third epoch. -/
def thirdBindingSignature : Signature :=
  ⟨[0x33, 0x70, 0x3a, 0x31, 0xf8, 0x30, 0xd7, 0xb1, 0x7f, 0xad, 0xe6, 0x1a, 0x9a, 0x05, 0xca,
    0xda, 0xc9, 0xc8, 0x21, 0x41, 0x0c, 0x81, 0xbc, 0xe0, 0x0f, 0x3a, 0xdb, 0x2a, 0xa7, 0xc0,
    0xba, 0x7f, 0xf5, 0xe8, 0x5a, 0x05, 0xa3, 0xa9, 0x47, 0x49, 0xb3, 0xf7, 0x18, 0xb2, 0x56,
    0x92, 0x01, 0x8a, 0x8a, 0x24, 0xe3, 0x98, 0xd2, 0xd8, 0xf1, 0x59, 0x1b, 0x89, 0xe2, 0xf4,
    0x51, 0xa2, 0x7c, 0x06], rfl⟩

/-- The transfer to the second epoch: leases the first server issues after it are rejected. -/
def firstTransfer : Transfer where
  authorityId := sampleBinding.authorityId
  fromEpoch := 0
  toEpoch := 1
  fromLease := sampleLease
  transitionAt := 200
  oldLeases := .rejectAfterTransition
  issuedAt := 100
  expiresAt := 1000
  binding := secondBindingSignature.toList ++ secondBinding.body.toOption.getD []

/-- The transfer to the third epoch: old leases are honoured. -/
def secondTransfer : Transfer where
  authorityId := sampleBinding.authorityId
  fromEpoch := 1
  toEpoch := 2
  fromLease := secondLease
  transitionAt := 300
  oldLeases := .honour
  issuedAt := 100
  expiresAt := 1000
  binding := thirdBindingSignature.toList ++ thirdBinding.body.toOption.getD []

/-- The signature of the controller over the first transfer. -/
def firstTransferSignature : Signature :=
  ⟨[0x04, 0x0d, 0x67, 0x63, 0x03, 0xb8, 0x9d, 0xe1, 0xc4, 0x48, 0x97, 0x3f, 0xd6, 0x00, 0x14,
    0x58, 0x05, 0x05, 0xf4, 0xf6, 0x12, 0xc4, 0xc4, 0x28, 0x7c, 0x2b, 0x95, 0xbf, 0x7d, 0x48,
    0xa0, 0x0e, 0x1c, 0x91, 0x4d, 0x6f, 0xbb, 0x8f, 0x38, 0x38, 0x1c, 0x44, 0xe9, 0x28, 0x0c,
    0x88, 0x6e, 0x73, 0xf9, 0x8b, 0xb0, 0x84, 0x25, 0xca, 0x3f, 0x6b, 0x55, 0x58, 0xe4, 0xaf,
    0x5b, 0xba, 0x7d, 0x03], rfl⟩

/-- The signature of the controller over the second transfer. -/
def secondTransferSignature : Signature :=
  ⟨[0x8a, 0x97, 0xeb, 0x97, 0xd3, 0x08, 0x4d, 0xc0, 0xf1, 0xc9, 0xc2, 0x77, 0xa6, 0xf8, 0x64,
    0xcd, 0xc6, 0x5d, 0x8a, 0x7e, 0x7d, 0x09, 0x9f, 0xd1, 0x2d, 0x7e, 0x73, 0x1d, 0xb7, 0x9b,
    0x02, 0x3d, 0x8d, 0xcb, 0xed, 0x94, 0x43, 0x47, 0x31, 0x40, 0xdc, 0xd3, 0x32, 0x98, 0x4a,
    0x5b, 0x94, 0xf6, 0x34, 0x26, 0x9d, 0x4f, 0x48, 0x6e, 0x52, 0x08, 0xd9, 0x27, 0x60, 0xba,
    0x3a, 0xa2, 0xab, 0x08], rfl⟩

/-- The message of a transfer: what its signatures cover. -/
def transferMessage (transfer : Transfer) : List UInt8 :=
  (transcript .authorityTransfer (transfer.body.toOption.getD [])).asBytes

/-- A transfer under one signature of the controller. -/
def signedTransfer (transfer : Transfer) (signature : Signature) : List UInt8 :=
  1 :: (signatureBytes (sampleController, signature) ++ transfer.body.toOption.getD [])

/-- The signatures of the sample chain. -/
def chainSignatures : List (Digest × List UInt8 × Signature) :=
  [(sampleLease, bindingMessage sampleBinding, sampleBindingSignature),
    (secondLease, bindingMessage secondBinding, secondBindingSignature),
    (thirdLease, bindingMessage thirdBinding, thirdBindingSignature),
    (sampleController, transferMessage firstTransfer, firstTransferSignature),
    (sampleController, transferMessage secondTransfer, secondTransferSignature)]

/-- The transfers of the sample chain. -/
def sampleTransfers : List (List UInt8) :=
  [signedTransfer firstTransfer firstTransferSignature,
    signedTransfer secondTransfer secondTransferSignature]

/-- What the sample server became. -/
def sampleEffective : Effective where
  binding := thirdBinding
  bytes := secondTransfer.binding
  transitionAt := some 300
  oldLeases := some .honour
  previousKeys := [sampleLease, secondLease]

/-- A chain of two transfers is accepted, and its epoch is the second after the first. -/
theorem verifyChain_trusted_sampleTransfers :
    verifyChain (recordedEd25519 chainSignatures) sampleBindingBytes sampleTransfers sampleLease 150 =
        .ok sampleEffective ∧
      ∃ start hops, Follows (recordedEd25519 chainSignatures) 150 start sampleTransfers hops ∧
        sampleEffective.binding.epoch.toNat = start.epoch.toNat + 2 := by
  have h : verifyChain (recordedEd25519 chainSignatures) sampleBindingBytes sampleTransfers
      sampleLease 150 = .ok sampleEffective := by decide +kernel
  obtain ⟨start, hops, -, hfollows, -, -, -, hepoch, -⟩ := verifyChain_trusted h
  exact ⟨h, start, hops, hfollows, hepoch⟩

end Control

end OpenCrate.Protocol
