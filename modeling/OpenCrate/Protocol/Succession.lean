import OpenCrate.Protocol.Continuity
import OpenCrate.Protocol.OldLeases

/-!
# What a transfer of authority leaves to its signers

Two things of a chain of authority are up to the rosters that sign it. The time at which a new epoch takes
authority is declared and returned, and `verify_chain` compares it with nothing: neither with the clock nor
with the time declared before it (`verifyChain_undated`). The organization of the successor is whatever
binding the certificate carries; of the identity of a server only `authority_id` goes through every hop
(`verifyChain_tenant`).
-/

namespace OpenCrate.Protocol

open OpenCrate.Format OpenCrate.Crypto
open Except (refuseIf okOr)

namespace Control

variable {ed : Ed25519} {now : Int64}

/-! ### The time of a transition -/

/-- The certificate without the time of its transition. -/
def Transfer.undated (transfer : Transfer) : Transfer :=
  { transfer with transitionAt := 0 }

/-- The result without the time of its transition. -/
def Effective.undated (e : Effective) : Effective :=
  { e with transitionAt := none }

variable (ed) in
/-- What a certificate opens to, but for the time of its transition. -/
def openUndated (signed : List UInt8) : Except FormatError (Transfer × List Digest) :=
  (openTransfer ed signed).map fun opened ↦ (opened.1.undated, opened.2)

/-- The time of a transition is not looked at, and the next one replaces it. -/
theorem followTransfer_undated {current current' : Effective} {signed signed' : List UInt8}
    (hcurrent : current.undated = current'.undated)
    (hopen : openUndated ed signed = openUndated ed signed') :
    (followTransfer ed now current signed).map Effective.undated =
      (followTransfer ed now current' signed').map Effective.undated := by
  simp only [Effective.undated, Effective.mk.injEq, true_and] at hcurrent
  obtain ⟨hbinding, -, -, hkeys⟩ := hcurrent
  simp only [followTransfer, hbinding, hkeys]
  refine Except.map_bind_congr (p := fun opened ↦ (opened.1.undated, opened.2)) ?_ ?_
  · rw [Except.map_mapError, Except.map_mapError]
    exact congrArg (Except.mapError ChainError.malformed) hopen
  · rintro ⟨⟨id, fromEpoch, toEpoch, fromLease, at_, rule, issued, expires, carried⟩, signers⟩
      ⟨transfer', signers'⟩ hsame
    obtain ⟨htransfer, rfl⟩ := Prod.mk.inj hsame
    simp only [Transfer.undated, Transfer.mk.injEq, true_and] at htransfer
    obtain ⟨rfl, rfl, rfl, rfl, rfl, rfl, rfl, rfl⟩ := htransfer
    -- the checks are the same, and only what is returned holds the time
    iterate 8 refine Except.map_bind_congr_right fun _ ↦ ?_
    rfl

/-- **A run over the transfers does not depend on their dates**, as far as what it gives has none. -/
theorem foldlM_followTransfer_undated {current current' : Effective}
    {transfers transfers' : List (List UInt8)} (hcurrent : current.undated = current'.undated)
    (h : transfers.map (openUndated ed) = transfers'.map (openUndated ed)) :
    (transfers.foldlM (followTransfer ed now) current).map Effective.undated =
      (transfers'.foldlM (followTransfer ed now) current').map Effective.undated := by
  induction transfers generalizing current current' transfers' with
  | nil =>
    obtain rfl := List.map_eq_nil_iff.1 h.symm
    exact congrArg Except.ok hcurrent
  | cons signed rest ih =>
    obtain ⟨signed', rest', rfl, hopen, hrest⟩ := List.map_eq_cons_iff.1 h.symm
    rw [List.foldlM_cons, List.foldlM_cons]
    exact Except.map_bind_congr (followTransfer_undated hcurrent hopen.symm)
      fun next next' hnext ↦ ih hnext hrest.symm

/-- **The times of the transitions decide nothing.** Two lists of certificates that differ in these times
and in the signatures over them have one result, the refusals included, but for the time it returns. -/
theorem verifyChain_undated {transfers transfers' : List (List UInt8)}
    (h : transfers.map (openUndated ed) = transfers'.map (openUndated ed)) (first : List UInt8)
    (anchor : Digest) :
    (verifyChain ed first transfers anchor now).map Effective.undated =
      (verifyChain ed first transfers' anchor now).map Effective.undated := by
  rw [verifyChain, verifyChain]
  exact Except.map_bind_congr_right fun _ ↦ foldlM_followTransfer_undated rfl h

/-- A hop goes to the epoch its certificate names. -/
theorem Hop.toNat_toEpoch {before after : Binding} {signed : List UInt8} {transfer : Transfer}
    (hop : Hop ed now before signed transfer after) :
    transfer.toEpoch.toNat = transfer.fromEpoch.toNat + 1 := by
  obtain ⟨signatures, body, -, hdecode, -⟩ := hop.signers
  exact Transfer.toNat_toEpoch hdecode

/-- A hop leads to the epoch that the transfer names. -/
theorem Hop.epoch_eq {before after : Binding} {signed : List UInt8} {transfer : Transfer}
    (hop : Hop ed now before signed transfer after) : after.epoch = transfer.toEpoch := by
  rw [← UInt64.toNat_inj, hop.epoch, hop.toNat_toEpoch, hop.names.2.1]

/-- **What the times of an accepted chain are.** No certificate is expired; the binding returned is the one
the last certificate carries, with the time that certificate declares. The declared times are free. -/
theorem verifyChain_times {first : List UInt8} {transfers : List (List UInt8)} {anchor : Digest}
    {e : Effective} (h : verifyChain ed first transfers anchor now = .ok e) :
    (∀ signed ∈ transfers, ∃ transfer signers, openTransfer ed signed = .ok (transfer, signers) ∧
      now ≤ transfer.expiresAt ∧ transfer.toEpoch.toNat = transfer.fromEpoch.toNat + 1) ∧
    (transfers = [] → Binding.open_ ed first anchor = .ok e.binding ∧ e.transitionAt = none) ∧
    (∀ init signed, transfers = init ++ [signed] → ∃ transfer signers,
      openTransfer ed signed = .ok (transfer, signers) ∧ Binding.peek transfer.binding = .ok e.binding ∧
        e.binding.epoch = transfer.toEpoch ∧ e.transitionAt = some transfer.transitionAt) ∧
    ∀ transfers', transfers'.map (openUndated ed) = transfers.map (openUndated ed) →
      ∃ e', verifyChain ed first transfers' anchor now = .ok e' ∧ e'.undated = e.undated := by
  obtain ⟨start, hopen, hfold⟩ := Except.bind_eq_ok_iff.1 h
  refine ⟨?_, ?_, ?_, ?_⟩
  · intro signed hsigned
    obtain ⟨current, next, hstep⟩ := Except.exists_of_mem_foldlM hfold hsigned
    obtain ⟨transfer, after, hop, -⟩ := followTransfer_eq_ok_iff.1 hstep
    obtain ⟨signers, hopened⟩ := hop.openTransfer_eq
    exact ⟨transfer, signers, hopened, hop.current, hop.toNat_toEpoch⟩
  · rintro rfl
    obtain rfl := Except.ok.inj hfold
    exact ⟨Except.mapError_eq_ok_iff.1 hopen, rfl⟩
  -- only the last transfer leaves its time behind
  · rintro init signed rfl
    rw [List.foldlM_append] at hfold
    obtain ⟨current, -, hlast⟩ := Except.bind_eq_ok_iff.1 hfold
    obtain ⟨next, hnext, hnil⟩ := Except.bind_eq_ok_iff.1 hlast
    obtain rfl := Except.ok.inj hnil
    obtain ⟨transfer, after, hop, rfl⟩ := followTransfer_eq_ok_iff.1 hnext
    obtain ⟨signers, hopened⟩ := hop.openTransfer_eq
    exact ⟨transfer, signers, hopened, hop.selfSigned.1, hop.epoch_eq, rfl⟩
  · intro transfers' htransfers
    have hsame : (verifyChain ed first transfers' anchor now).map Effective.undated =
        (verifyChain ed first transfers anchor now).map Effective.undated :=
      verifyChain_undated htransfers first anchor
    rw [h] at hsame
    exact Except.map_eq_ok_iff.1 hsame

/-- The transfer to the third epoch, with a transition before that to the second. -/
def earlyTransfer : Transfer := { secondTransfer with transitionAt := 100 }

/-- The signature of the controller over it. -/
def earlyTransferSignature : Signature :=
  ⟨[0xea, 0xe6, 0x42, 0x9f, 0x2a, 0xa9, 0x5d, 0x5e, 0x2c, 0x35, 0xcf, 0xf8, 0x08, 0xf1, 0x09,
    0x83, 0x0e, 0x81, 0x05, 0x39, 0xc4, 0x4f, 0xa3, 0xf3, 0xdb, 0xb1, 0x04, 0x56, 0x1b, 0x60,
    0xcc, 0x64, 0xf2, 0x97, 0x7f, 0x1a, 0x80, 0x9e, 0x90, 0xd4, 0xeb, 0x50, 0x77, 0xaf, 0x06,
    0x4e, 0x8f, 0x33, 0xc3, 0x8e, 0xc6, 0xc7, 0x36, 0x18, 0xd9, 0x9c, 0xfb, 0x71, 0xfd, 0x54,
    0x35, 0xd5, 0x9a, 0x01], rfl⟩

/-- The signatures of the sample chain, and that over the early transfer. -/
def earlyEd25519 : Ed25519 :=
  recordedEd25519 ((sampleController, transferMessage earlyTransfer, earlyTransferSignature) ::
    chainSignatures)

/-- The chain whose second transition comes before its first. -/
def earlyTransfers : List (List UInt8) :=
  [signedTransfer firstTransfer firstTransferSignature, signedTransfer earlyTransfer earlyTransferSignature]

/-- The sample chain is accepted with the early date. -/
theorem verifyChain_earlyEd25519 :
    verifyChain earlyEd25519 sampleBindingBytes sampleTransfers sampleLease 150 = .ok sampleEffective := by
  decide +kernel

/-- At 150, 200 and 300 are still to come; at 250, the second transition was before the first. -/
theorem transition_neither_due_nor_ordered :
    (verifyChain earlyEd25519 sampleBindingBytes sampleTransfers sampleLease 150 = .ok sampleEffective ∧
      (declared earlyEd25519 sampleTransfers).map Declaration.transitionAt = [200, 300]) ∧
    (verifyChain earlyEd25519 sampleBindingBytes earlyTransfers sampleLease 250 =
        .ok { sampleEffective with transitionAt := some 100 } ∧
      (declared earlyEd25519 earlyTransfers).map Declaration.transitionAt = [200, 100]) := by
  refine ⟨⟨verifyChain_earlyEd25519, ?_⟩, ?_, ?_⟩ <;> decide +kernel

/-- The times of the early chain are free: it has the result of the sample chain but for its time. -/
theorem verifyChain_times_sampleTransfers :
    verifyChain earlyEd25519 sampleBindingBytes sampleTransfers sampleLease 150 = .ok sampleEffective ∧
      ∃ e', verifyChain earlyEd25519 sampleBindingBytes earlyTransfers sampleLease 150 = .ok e' ∧
        e'.undated = sampleEffective.undated :=
  ⟨verifyChain_earlyEd25519,
    (verifyChain_times verifyChain_earlyEd25519).2.2.2 earlyTransfers (by decide +kernel)⟩

/-! ### The organization -/

/-- Where a part of the binding changes along a chain, one hop changes it. -/
theorem Follows.exists_change {α : Type} (part : Binding → α) {before : Binding}
    {transfers : List (List UInt8)} {hops : List (Transfer × Binding)}
    (h : Follows ed now before transfers hops)
    (hne : part ((before :: hops.map Prod.snd).getLast (List.cons_ne_nil _ _)) ≠ part before) :
    ∃ (i : ℕ) (b : Binding) (signed : List UInt8) (transfer : Transfer) (after : Binding),
      (before :: hops.map Prod.snd)[i]? = some b ∧ transfers[i]? = some signed ∧
        hops[i]? = some (transfer, after) ∧ Hop ed now b signed transfer after ∧ part after ≠ part b := by
  -- by induction on the chain: the first hop changes the part, or a later one does
  induction h with
  | nil => exact absurd rfl hne
  | @cons before after signed transfer rest hops hop hrest ih =>
    by_cases hsame : part after = part before
    · rw [List.map_cons, List.getLast_cons (List.cons_ne_nil _ _), ← hsame] at hne
      obtain ⟨i, b, signed', transfer', after', hb, hsigned, hhop, hop', hchange⟩ := ih hne
      exact ⟨i + 1, b, signed', transfer', after', hb, hsigned, hhop, hop', hchange⟩
    · exact ⟨0, before, signed, transfer, after, rfl, rfl, rfl, hop, hsame⟩

/-- **The authority stays the same along the hops.** -/
theorem Follows.authorityId_eq {before : Binding} {transfers : List (List UInt8)}
    {hops : List (Transfer × Binding)} (h : Follows ed now before transfers hops) :
    ((before :: hops.map Prod.snd).getLast (List.cons_ne_nil _ _)).authorityId = before.authorityId := by
  by_contra hne
  obtain ⟨i, b, signed, transfer, after, -, -, -, hop, hchange⟩ := h.exists_change Binding.authorityId hne
  exact hchange hop.authorityId

/-- Enough different controllers of the binding in force have signed the certificate. -/
theorem Hop.quorum {before after : Binding} {signed : List UInt8} {transfer : Transfer}
    (hop : Hop ed now before signed transfer after) :
    ∃ (body : List UInt8) (keys : List Digest), Transfer.decodeBody body = .ok transfer ∧
      keys.Nodup ∧ keys ⊆ before.roster ∧ 1 ≤ before.threshold.toNat ∧
      before.threshold.toNat ≤ keys.length ∧
      ∀ key ∈ keys, ∃ signature, verify ed key (transcript .authorityTransfer body) signature = .ok () := by
  obtain ⟨signatures, body, -, hdecode, hnodup, hverify, hcount⟩ := hop.signers
  refine ⟨body, (signatures.filter fun s ↦ s.1 ∈ before.roster).map Prod.fst, hdecode, ?_, ?_,
    hop.threshold, ?_, ?_⟩
  · exact hnodup.sublist (List.filter_sublist.map _)
  · intro key hkey
    obtain ⟨s, hs, rfl⟩ := List.mem_map.1 hkey
    exact of_decide_eq_true (List.mem_filter.1 hs).2
  · rwa [List.length_map]
  · intro key hkey
    obtain ⟨s, hs, rfl⟩ := List.mem_map.1 hkey
    exact ⟨s.2, hverify s (List.mem_filter.1 hs).1⟩

/-- Bindings of different epochs are not compared. -/
theorem continuity_of_epoch_ne (sha : Sha2) {a b : Binding} (h : a.epoch ≠ b.epoch)
    (aBytes bBytes : List UInt8) : continuity sha a aBytes b bBytes = .unrelated :=
  if_pos (.inr (.inr h))

/-- **What a chain keeps of the identity of a server.** The identifier stays; the organization changes only
where enough controllers of the binding in force have signed a certificate with the binding of another one.
Within an epoch `continuity` asks for one organization, and over a transfer it compares nothing. -/
theorem verifyChain_tenant (sha : Sha2) {first : List UInt8} {transfers : List (List UInt8)}
    {anchor : Digest} {e : Effective} (h : verifyChain ed first transfers anchor now = .ok e) :
    ∃ (start : Binding) (hops : List (Transfer × Binding)),
      Binding.open_ ed first anchor = .ok start ∧ Follows ed now start transfers hops ∧
      e.binding = (start :: hops.map Prod.snd).getLast (List.cons_ne_nil _ _) ∧
      e.binding.authorityId = start.authorityId ∧
      (e.binding.tenant ≠ start.tenant →
        ∃ (i : ℕ) (before : Binding) (transfer : Transfer) (after : Binding) (body : List UInt8)
          (keys : List Digest),
          (start :: hops.map Prod.snd)[i]? = some before ∧ hops[i]? = some (transfer, after) ∧
          after.tenant ≠ before.tenant ∧ Binding.peek transfer.binding = .ok after ∧
          Transfer.decodeBody body = .ok transfer ∧ keys.Nodup ∧ keys ⊆ before.roster ∧
          1 ≤ before.threshold.toNat ∧ before.threshold.toNat ≤ keys.length ∧
          ∀ key ∈ keys, ∃ signature,
            verify ed key (transcript .authorityTransfer body) signature = .ok ()) ∧
      (∀ (a b : Binding) (aBytes bBytes : List UInt8),
        continuity sha a aBytes b bBytes ≠ .unrelated → a.epoch = b.epoch ∧ a.tenant = b.tenant) ∧
      (transfers ≠ [] → continuity sha start first e.binding e.bytes = .unrelated) := by
  obtain ⟨start, hops, ⟨hsigned, hpeek, hkey⟩, hfollows, hbinding, -, -, hepoch, -⟩ :=
    verifyChain_trusted h
  refine ⟨start, hops, Binding.open_eq_ok_iff.2 ⟨hsigned, hpeek, hkey⟩, hfollows, hbinding, ?_, ?_, ?_, ?_⟩
  · rw [hbinding]
    exact hfollows.authorityId_eq
  · intro hne
    rw [hbinding] at hne
    obtain ⟨i, before, signed, transfer, after, hbefore, -, hhop, hop, hchange⟩ :=
      hfollows.exists_change Binding.tenant hne
    obtain ⟨body, keys, hquorum⟩ := hop.quorum
    exact ⟨i, before, transfer, after, body, keys, hbefore, hhop, hchange, hop.selfSigned.1, hquorum⟩
  · intro a b aBytes bBytes hrelated
    obtain ⟨-, htenant, hsame⟩ := related_of_continuity rfl hrelated
    exact ⟨hsame, htenant⟩
  -- each hop counts up the epoch, so the first and the last binding are unrelated
  · intro hmoved
    refine continuity_of_epoch_ne sha (fun hsame ↦ ?_) _ _
    have hpos := List.length_pos_of_ne_nil hmoved
    rw [hsame] at hepoch
    omega

/-- The binding of the second epoch, of another organization. -/
def movedBinding : Binding := { secondBinding with tenant := "other" }

/-- The signature of the binding of the other organization. -/
def movedBindingSignature : Signature :=
  ⟨[0x95, 0x76, 0xac, 0xa9, 0xd7, 0x43, 0xe4, 0xec, 0xfc, 0xb4, 0xed, 0xc8, 0x58, 0x9f, 0xdc,
    0xba, 0x6b, 0x74, 0x42, 0xfb, 0x80, 0x78, 0x8e, 0x13, 0xa1, 0x08, 0x13, 0xf9, 0x18, 0x49,
    0xfd, 0xd6, 0xd8, 0x24, 0x23, 0x7b, 0x3f, 0x5c, 0x93, 0x6f, 0xb7, 0xd0, 0x6b, 0xad, 0xe3,
    0x3d, 0x68, 0x8b, 0x89, 0x6f, 0x61, 0xbf, 0x0c, 0xa4, 0x84, 0x8e, 0xe2, 0x7b, 0xac, 0xb9,
    0xb2, 0xba, 0xb6, 0x04], rfl⟩

/-- The transfer to the other organization. -/
def movingTransfer : Transfer :=
  { firstTransfer with binding := movedBindingSignature.toList ++ movedBinding.body.toOption.getD [] }

/-- The signature of the controller over it. -/
def movingTransferSignature : Signature :=
  ⟨[0xfa, 0x84, 0xce, 0xf1, 0x2a, 0xfa, 0xd2, 0x6b, 0x74, 0x66, 0x8d, 0xc3, 0x4f, 0x4e, 0xdc,
    0xdf, 0x12, 0x9c, 0xfc, 0xe6, 0x28, 0xda, 0x43, 0x50, 0xa0, 0x68, 0x4d, 0x87, 0xbc, 0x30,
    0xa7, 0x1b, 0x9f, 0xe8, 0xef, 0x8a, 0x2b, 0xfb, 0x9a, 0xd5, 0xcc, 0xf6, 0x7e, 0xb4, 0x10,
    0xb5, 0x54, 0x7a, 0xe1, 0xdb, 0x8b, 0x6e, 0xe0, 0xaa, 0xef, 0x1a, 0x05, 0x1f, 0x28, 0x97,
    0xea, 0x21, 0xfc, 0x01], rfl⟩

/-- The signatures of the chain that moves to another organization. -/
def movingEd25519 : Ed25519 :=
  recordedEd25519 [(sampleLease, bindingMessage sampleBinding, sampleBindingSignature),
    (secondLease, bindingMessage movedBinding, movedBindingSignature),
    (sampleController, transferMessage movingTransfer, movingTransferSignature)]

/-- What the server became under the other organization. -/
def movedEffective : Effective where
  binding := movedBinding
  bytes := movingTransfer.binding
  transitionAt := some 200
  oldLeases := some .rejectAfterTransition
  previousKeys := [sampleLease]

/-- The chain to another organization is accepted. -/
theorem verifyChain_movingEd25519 :
    verifyChain movingEd25519 sampleBindingBytes
      [signedTransfer movingTransfer movingTransferSignature] sampleLease 150 = .ok movedEffective := by
  decide +kernel

/-- A server of one organization is taken over by a server of another. -/
theorem transfer_changes_tenant :
    Binding.open_ movingEd25519 sampleBindingBytes sampleLease = .ok sampleBinding ∧
      verifyChain movingEd25519 sampleBindingBytes
        [signedTransfer movingTransfer movingTransferSignature] sampleLease 150 = .ok movedEffective ∧
      sampleBinding.tenant = "acme" ∧ movedEffective.binding.tenant = "other" := by
  refine ⟨?_, verifyChain_movingEd25519, rfl, rfl⟩
  decide +kernel

/-- The chain to the other organization keeps the identifier of the server. -/
theorem verifyChain_tenant_movingTransfer :
    verifyChain movingEd25519 sampleBindingBytes
        [signedTransfer movingTransfer movingTransferSignature] sampleLease 150 = .ok movedEffective ∧
      ∃ start, Binding.open_ movingEd25519 sampleBindingBytes sampleLease = .ok start ∧
        movedEffective.binding.authorityId = start.authorityId := by
  obtain ⟨start, -, hopen, -, -, hid, -⟩ := verifyChain_tenant unaskedSha verifyChain_movingEd25519
  exact ⟨verifyChain_movingEd25519, start, hopen, hid⟩

end Control

end OpenCrate.Protocol
