import OpenCrate.Protocol.AuthorityChain

/-!
# What a chain of authority says about old leases

Each transfer declares for the key it takes authority from how leases of that key are treated and from
when on. `verify_chain` leaves every old key, and one declaration: that of the last transfer. Which
declarations the result determines is settled here for every chain. It determines that of the key of
the epoch before the active one; a roster of an earlier epoch could have declared the opposite with the
same result (`Follows.redeclare`).
-/

namespace OpenCrate.Protocol

open OpenCrate.Format OpenCrate.Crypto
open Except (refuseIf okOr)

namespace Control

/-- What a transfer declares for the key it takes authority from. -/
structure Declaration where
  key : Digest
  oldLeases : OldLeases
  transitionAt : Int64
  deriving DecidableEq

/-- A lease of the key issued at a time is to be rejected. -/
def Declaration.Rejects (d : Declaration) (issuedAt : Int64) : Prop :=
  d.oldLeases = .rejectAfterTransition ∧ d.transitionAt < issuedAt

/-- The declaration of a certificate. -/
def Transfer.declaration (transfer : Transfer) : Declaration :=
  ⟨transfer.fromLease, transfer.oldLeases, transfer.transitionAt⟩

/-- The declarations of the transfers of a chain, in order. -/
def declared (ed : Ed25519) (transfers : List (List UInt8)) : List Declaration :=
  transfers.filterMap fun signed ↦ (openTransfer ed signed).toOption.map fun opened ↦
    opened.1.declaration

/-- A key that has signed something can sign everything. -/
def Signing (ed : Ed25519) : Prop :=
  ∀ {key : Digest} {t : Transcript} {signature : Signature}, verify ed key t signature = .ok () →
    ∀ t', ∃ signature', verify ed key t' signature' = .ok ()

variable {ed : Ed25519} {now : Int64}

/-! ### Declaring the opposite -/

/-- The certificate with another treatment of old leases. -/
def Transfer.redeclared (transfer : Transfer) (rule : OldLeases) : Transfer :=
  { transfer with oldLeases := rule }

/-- With another rule the transfer is written as long as before. -/
theorem Transfer.exists_body_redeclared {transfer : Transfer} {written : List UInt8}
    (h : transfer.body = .ok written) (rule : OldLeases) :
    ∃ written', (transfer.redeclared rule).body = .ok written' ∧ written'.length = written.length := by
  obtain ⟨hcheck, henc⟩ := body_eq_ok_iff.1 h
  obtain ⟨htags, hfits⟩ := Encodes.exists_iff.1 ⟨_, henc⟩
  obtain ⟨written', henc'⟩ : ∃ written', Encodes written' (transfer.redeclared rule).contents := by
    refine Encodes.exists_iff.2 ⟨htags, ?_⟩
    simp only [contents, List.forall_mem_cons] at hfits ⊢
    exact hfits
  have hbody' : (transfer.redeclared rule).body = .ok written' :=
    body_eq_ok_iff.2 ⟨hcheck, henc'⟩
  refine ⟨written', hbody', ?_⟩
  rw [length_body h, length_body hbody']
  rfl

/-- Signatures of the same keys over another message. -/
theorem exists_resigned (hsigning : Signing ed) {t : Transcript} (t' : Transcript)
    {signatures : List (Digest × Signature)}
    (h : ∀ s ∈ signatures, verify ed s.1 t s.2 = .ok ()) :
    ∃ signatures' : List (Digest × Signature),
      signatures'.map Prod.fst = signatures.map Prod.fst ∧
        ∀ s ∈ signatures', verify ed s.1 t' s.2 = .ok () := by
  -- every signer signs the new transcript, too
  induction signatures with
  | nil => exact ⟨[], rfl, nofun⟩
  | cons s signatures ih =>
    obtain ⟨hs, hrest⟩ := List.forall_mem_cons.1 h
    obtain ⟨signature', hsignature'⟩ := hsigning hs t'
    obtain ⟨signatures', hkeys, hverify⟩ := ih hrest
    exact ⟨(s.1, signature') :: signatures', congrArg (s.1 :: ·) hkeys,
      List.forall_mem_cons.2 ⟨hsignature', hverify⟩⟩

theorem length_flatMap_signatureBytes (signatures : List (Digest × Signature)) :
    (signatures.flatMap signatureBytes).length = 96 * signatures.length := by
  induction signatures with
  | nil => rfl
  | cons s signatures ih =>
    rw [List.flatMap_cons, List.length_append, ih, signatureBytes, List.length_append,
      List.Vector.toList_length, List.Vector.toList_length, List.length_cons, Crypto.signatureLen]
    omega

/-- **A roster that has signed a transfer can sign the transfer that declares the opposite.** -/
theorem Hop.redeclare (hsigning : Signing ed) {before after : Binding} {signed : List UInt8}
    {transfer : Transfer} (hop : Hop ed now before signed transfer after) (rule : OldLeases) :
    ∃ signed', Hop ed now before signed' (transfer.redeclared rule) after := by
  obtain ⟨signatures, body, hsplit, hdecode, hnodup, hverify, hcount⟩ := hop.signers
  obtain ⟨hsigned, hmax, hsome, hfew, hchain⟩ := splitRequest_eq_ok_iff.1 hsplit
  obtain ⟨written, hcarries, hbody⟩ := Transfer.decodeBody_eq_ok_iff.1 hdecode
  obtain ⟨written', hbody', hlength⟩ := Transfer.exists_body_redeclared hbody rule
  obtain ⟨signatures', hkeys, hverify'⟩ :=
    exists_resigned hsigning (transcript .authorityTransfer written') hverify
  -- the same keys sign again, so the envelope is as long as before
  have hlength' : signatures'.length = signatures.length := by
    simpa using congrArg List.length hkeys
  refine ⟨UInt8.ofNat signatures'.length :: (signatures'.flatMap signatureBytes ++ written'),
    ⟨signatures', written', splitRequest_eq_ok_iff.2 ⟨rfl, ?_, ?_, ?_, ?_⟩, ?_, hkeys ▸ hnodup,
      hverify', ?_⟩, hop.threshold, hop.names, hop.current, hop.selfSigned, hop.authorityId, hop.epoch⟩
  · have hle := hcarries.length_le
    have henvelope := congrArg List.length hsigned
    simp only [List.length_cons, List.length_append, length_flatMap_signatureBytes] at henvelope ⊢
    omega
  · omega
  · omega
  · rw [← List.isChain_map (f := Prod.fst) (R := keyLt)] at hchain ⊢
    rwa [hkeys]
  · exact Transfer.decodeBody_eq_ok_iff.2 ⟨written',
      .refl (Transfer.body_eq_ok_iff.1 hbody').2 Transfer.mem_tags_of_mem_contents, hbody'⟩
  · have hcounted : ∀ l : List (Digest × Signature),
        (l.filter fun s ↦ s.1 ∈ before.roster).length =
          ((l.map Prod.fst).filter fun key ↦ key ∈ before.roster).length := by
      intro l
      rw [List.filter_map, List.length_map]
      rfl
    rwa [hcounted, hkeys, ← hcounted]

/-- The hop with another treatment of old leases. -/
def redeclaredHop (rule : OldLeases) (hop : Transfer × Binding) : Transfer × Binding :=
  (hop.1.redeclared rule, hop.2)

/-- **Any hop of a chain can declare the opposite.** -/
theorem Follows.redeclare (hsigning : Signing ed) {before : Binding} {transfers : List (List UInt8)}
    {hops : List (Transfer × Binding)} (h : Follows ed now before transfers hops) (rule : OldLeases)
    (i : ℕ) : ∃ transfers', Follows ed now before transfers' (hops.modify i (redeclaredHop rule)) := by
  -- by induction on the chain, down to the hop that is signed again
  induction h generalizing i with
  | nil => exact ⟨[], by simpa using Follows.nil _⟩
  | cons hop hrest ih =>
    cases i with
    | zero =>
      obtain ⟨signed', hop'⟩ := hop.redeclare hsigning rule
      exact ⟨_, .cons hop' hrest⟩
    | succ i =>
      obtain ⟨transfers', hrest'⟩ := ih i
      exact ⟨_, .cons hop hrest'⟩

/-! ### What the result keeps -/

namespace Effective

/-- A transfer replaces the declaration before it. -/
theorem after_eq_after {s s' : Effective} (hbinding : s.binding = s'.binding)
    (hkeys : s.previousKeys = s'.previousKeys) (hop : Transfer × Binding) : s.after hop = s'.after hop := by
  rw [after, after, hbinding, hkeys]

/-- What a hop that is not the last declares does not reach the result. -/
theorem foldl_after_modify (current : Effective) {hops : List (Transfer × Binding)} {i : ℕ}
    (hi : i + 1 < hops.length) (rule : OldLeases) :
    (hops.modify i (redeclaredHop rule)).foldl after current = hops.foldl after current := by
  induction hops generalizing current i with
  | nil => exact absurd hi (Nat.not_lt_zero _)
  | cons hop hops ih =>
    cases i with
    | zero =>
      cases hops with
      | nil => exact absurd hi (lt_irrefl _)
      | cons next hops =>
        rw [List.modify_zero_cons, List.foldl_cons, List.foldl_cons, List.foldl_cons,
          List.foldl_cons]
        -- the next hop overwrites what this one declares
        exact congrArg (hops.foldl after) (after_eq_after rfl rfl next)
    | succ i =>
      rw [List.modify_succ_cons, List.foldl_cons, List.foldl_cons]
      exact ih _ (Nat.lt_of_succ_lt_succ hi)

end Effective

/-- A hop was opened from its transfer. -/
theorem Hop.openTransfer_eq {before after : Binding} {signed : List UInt8} {transfer : Transfer}
    (hop : Hop ed now before signed transfer after) :
    ∃ signers, openTransfer ed signed = .ok (transfer, signers) := by
  obtain ⟨signatures, body, hsplit, hdecode, -, hverify, -⟩ := hop.signers
  exact ⟨_, openTransfer_eq_ok_iff.2 ⟨signatures, body, hsplit, hverify, hdecode, rfl⟩⟩

/-- **The declarations of an accepted chain are those of its hops.** -/
theorem Follows.declared_eq {before : Binding} {transfers : List (List UInt8)}
    {hops : List (Transfer × Binding)} (h : Follows ed now before transfers hops) :
    declared ed transfers = hops.map fun hop ↦ hop.1.declaration := by
  induction h with
  | nil => rfl
  | cons hop _ ih =>
    obtain ⟨signers, hopen⟩ := hop.openTransfer_eq
    rw [declared, List.filterMap_cons_some (b := _) (by rw [hopen]; rfl), List.map_cons, ← ih]
    rfl

/-- The old keys of the result are those declared for. -/
theorem Follows.map_key_declared {before : Binding} {transfers : List (List UInt8)}
    {hops : List (Transfer × Binding)} (h : Follows ed now before transfers hops) :
    (declared ed transfers).map Declaration.key =
      (before :: hops.map Prod.snd).dropLast.map Binding.leasePublic := by
  rw [h.declared_eq, List.map_map]
  induction h with
  | nil => rfl
  | cons hop _ ih =>
    rw [List.map_cons, ih, List.map_cons, List.dropLast_cons_cons, List.map_cons]
    exact congrArg (· :: _) hop.names.2.2

/-- The result keeps the declaration of the last transfer. -/
theorem Effective.getLast?_declaration (current : Effective) {hops : List (Transfer × Binding)}
    {hop : Transfer × Binding} (h : hops.getLast? = some hop) :
    (hops.foldl after current).oldLeases = some hop.1.oldLeases ∧
      (hops.foldl after current).transitionAt = some hop.1.transitionAt := by
  obtain ⟨init, rfl⟩ := List.getLast?_eq_some_iff.1 h
  rw [List.foldl_append]
  exact ⟨rfl, rfl⟩

/-! ### What the result determines -/

section

variable {first : List UInt8} {transfers : List (List UInt8)} {anchor : Digest} {e : Effective}

/-- One declaration for every key that was replaced. -/
theorem map_key_declared (h : verifyChain ed first transfers anchor now = .ok e) :
    (declared ed transfers).map Declaration.key = e.previousKeys := by
  obtain ⟨binding, hops, -, hfollows, rfl⟩ := verifyChain_eq_ok_iff.1 h
  rw [hfollows.map_key_declared, Effective.previousKeys_foldl_after]
  rfl

theorem length_declared (h : verifyChain ed first transfers anchor now = .ok e) :
    (declared ed transfers).length = transfers.length := by
  obtain ⟨binding, hops, -, hfollows, -⟩ := verifyChain_eq_ok_iff.1 h
  rw [hfollows.declared_eq, List.length_map, hfollows.length_eq]

/-- The result determines what the last transfer declares. -/
theorem declared_last (h : verifyChain ed first transfers anchor now = .ok e) {i : ℕ}
    (hi : i + 1 = transfers.length) :
    ∃ key rule at_, e.previousKeys[i]? = some key ∧ e.oldLeases = some rule ∧
      e.transitionAt = some at_ ∧ (declared ed transfers)[i]? = some ⟨key, rule, at_⟩ := by
  have hkeys := map_key_declared h
  obtain ⟨binding, hops, -, hfollows, rfl⟩ := verifyChain_eq_ok_iff.1 h
  have hlength := hfollows.length_eq
  obtain ⟨hop, hhop⟩ : ∃ hop, hops.getLast? = some hop :=
    ⟨_, List.getLast?_eq_some_getLast (List.ne_nil_of_length_pos (by omega))⟩
  obtain ⟨hrule, hat⟩ := Effective.getLast?_declaration (.start binding first) hhop
  have hlast : (declared ed transfers)[i]? = some hop.1.declaration := by
    rw [List.getLast?_eq_getElem?] at hhop
    rw [hfollows.declared_eq, List.getElem?_map, show i = hops.length - 1 by omega, hhop]
    rfl
  refine ⟨_, _, _, ?_, hrule, hat, hlast⟩
  rw [← hkeys, List.getElem?_map, hlast]
  rfl

/-- **A transfer that is not the last could have declared the opposite, with the same result.** -/
theorem exists_redeclared (hsigning : Signing ed)
    (h : verifyChain ed first transfers anchor now = .ok e) {i : ℕ} (hi : i + 1 < transfers.length) :
    ∃ transfers', verifyChain ed first transfers' anchor now = .ok e ∧
      (declared ed transfers')[i]? ≠ (declared ed transfers)[i]? := by
  obtain ⟨binding, hops, hopen, hfollows, rfl⟩ := verifyChain_eq_ok_iff.1 h
  rw [← hfollows.length_eq] at hi
  obtain ⟨hop, hhop⟩ : ∃ hop, hops[i]? = some hop :=
    ⟨_, List.getElem?_eq_getElem (Nat.lt_of_succ_lt hi)⟩
  obtain ⟨rule, hrule⟩ : ∃ rule, rule ≠ hop.1.oldLeases := by
    cases hop.1.oldLeases with
    | honour => exact ⟨.rejectAfterTransition, by decide⟩
    | rejectAfterTransition => exact ⟨.honour, by decide⟩
  obtain ⟨transfers', hfollows'⟩ := hfollows.redeclare hsigning rule i
  refine ⟨transfers', verifyChain_eq_ok_iff.2 ⟨binding, _, hopen, hfollows',
    (Effective.foldl_after_modify _ hi rule).symm⟩, ?_⟩
  rw [hfollows.declared_eq, hfollows'.declared_eq, List.getElem?_map, List.getElem?_map,
    List.getElem?_modify, hhop]
  simpa [redeclaredHop, Transfer.redeclared, Transfer.declaration] using hrule

/-- The result determines the declaration for an old key exactly if the key is the last of them. -/
theorem getElem?_declared_determined_iff (hsigning : Signing ed)
    (h : verifyChain ed first transfers anchor now = .ok e) {i : ℕ} (hi : i < transfers.length) :
    (∀ transfers' now', verifyChain ed first transfers' anchor now' = .ok e →
      (declared ed transfers')[i]? = (declared ed transfers)[i]?) ↔ i + 1 = transfers.length := by
  constructor
  · intro hsame
    by_contra hne
    obtain ⟨transfers', h', hother⟩ := exists_redeclared hsigning h (i := i) (by omega)
    exact hother (hsame transfers' now h')
  · intro hlast transfers' now' h'
    have hlength : transfers'.length = transfers.length := by
      rw [← length_declared h, ← length_declared h', ← List.length_map Declaration.key,
        map_key_declared h', ← map_key_declared h, List.length_map]
    obtain ⟨key, rule, at_, hkey, hrule, hat, hdeclared⟩ := declared_last h hlast
    obtain ⟨key', rule', at_', hkey', hrule', hat', hdeclared'⟩ :=
      declared_last h' (hlast.trans hlength.symm)
    rw [hkey, Option.some_inj] at hkey'
    rw [hrule, Option.some_inj] at hrule'
    rw [hat, Option.some_inj] at hat'
    rw [hdeclared, hdeclared', hkey', hrule', hat']

/-- **What the result of a chain says about old leases.** It lists the keys declared for, and determines
every declaration exactly if the chain has at most one transfer; of the declarations of a longer chain
it determines the last. -/
theorem declarations_determined_iff (hsigning : Signing ed)
    (h : verifyChain ed first transfers anchor now = .ok e) :
    (declared ed transfers).map Declaration.key = e.previousKeys ∧
    ((∀ transfers' now', verifyChain ed first transfers' anchor now' = .ok e →
      declared ed transfers' = declared ed transfers) ↔ transfers.length ≤ 1) ∧
    ∀ i < transfers.length,
      ((∀ transfers' now', verifyChain ed first transfers' anchor now' = .ok e →
        (declared ed transfers')[i]? = (declared ed transfers)[i]?) ↔ i + 1 = transfers.length) := by
  refine ⟨map_key_declared h, ⟨?_, ?_⟩, fun i hi ↦ getElem?_declared_determined_iff hsigning h hi⟩
  · intro hsame
    by_contra hlong
    have hfirst := (getElem?_declared_determined_iff hsigning h (i := 0) (by omega)).1
      fun transfers' now' h' ↦ by rw [hsame transfers' now' h']
    omega
  · intro hshort transfers' now' h'
    have hkeys := (map_key_declared h').trans (map_key_declared h).symm
    have hlength : (declared ed transfers').length = (declared ed transfers).length := by
      simpa using congrArg List.length hkeys
    refine List.ext_getElem? fun i ↦ ?_
    by_cases hi : i < transfers.length
    · exact (getElem?_declared_determined_iff hsigning h hi).2 (by omega) transfers' now' h'
    · rw [← length_declared h] at hi
      rw [List.getElem?_eq_none (by omega), List.getElem?_eq_none (by omega)]

end

/-! ### Samples -/

/-- Ed25519 as far as some signatures go; every other message is signed with zeros. -/
def completedEd25519 (signed : List (Digest × List UInt8 × Signature)) : Ed25519 where
  VerifyingKey := Digest
  fromBytes := some
  verifyStrict key message signature :=
    decide ((key, message, signature) ∈ signed ∨
      (∀ s ∈ signed, s.1 = key → s.2.1 ≠ message) ∧ signature = zeros Crypto.signatureLen)

/-- Everything that is needed is signed. -/
theorem signing_completedEd25519 (signed : List (Digest × List UInt8 × Signature)) :
    Signing (completedEd25519 signed) := by
  intro key _ _ _ t'
  by_cases hsigned : ∃ signature, (key, t'.asBytes, signature) ∈ signed
  · obtain ⟨signature, hmem⟩ := hsigned
    exact ⟨signature, (verify_eq_ok_iff _).2 ⟨key, rfl, decide_eq_true (.inl hmem)⟩⟩
  · have hfree : ∀ s ∈ signed, s.1 = key → s.2.1 ≠ t'.asBytes := by
      rintro ⟨key', message, signature⟩ hmem rfl rfl
      exact hsigned ⟨signature, hmem⟩
    exact ⟨zeros Crypto.signatureLen,
      (verify_eq_ok_iff _).2 ⟨key, rfl, decide_eq_true (.inr ⟨hfree, rfl⟩)⟩⟩

/-- The transfer to the second epoch, with old leases honoured. -/
def honouringTransfer : Transfer := firstTransfer.redeclared .honour

/-- The signature of the controller over it. -/
def honouringSignature : Signature :=
  ⟨[0xf2, 0xa6, 0x34, 0x9c, 0x7d, 0xf8, 0x89, 0x62, 0x6b, 0x12, 0xf4, 0x12, 0xba, 0xea, 0x30,
    0x2d, 0xdc, 0x32, 0x3c, 0x3a, 0x01, 0x03, 0x1b, 0x1e, 0x48, 0x7c, 0xad, 0x52, 0xfe, 0xbe,
    0xd9, 0x87, 0x9e, 0x45, 0x7f, 0xfb, 0xb0, 0x5f, 0xf8, 0xa0, 0x23, 0x3a, 0xe0, 0x0e, 0x04,
    0x98, 0x81, 0x5d, 0x79, 0xf4, 0xde, 0xa1, 0xc9, 0x5d, 0x6b, 0x60, 0x5c, 0xea, 0xf0, 0x3f,
    0xe4, 0xad, 0x9f, 0x03], rfl⟩

/-- The signatures of both chains. -/
def bothChainsEd25519 : Ed25519 :=
  completedEd25519 ((sampleController, transferMessage honouringTransfer, honouringSignature) ::
    chainSignatures)

/-- The chain that never rejects a lease. -/
def honouringTransfers : List (List UInt8) :=
  [signedTransfer honouringTransfer honouringSignature,
    signedTransfer secondTransfer secondTransferSignature]

/-- The sample chain is accepted. -/
theorem verifyChain_sampleTransfers :
    verifyChain bothChainsEd25519 sampleBindingBytes sampleTransfers sampleLease 150 =
      .ok sampleEffective := by
  decide +kernel

/-- Of the two declarations of the sample chain the result determines the second. -/
theorem declarations_determined_iff_sampleTransfers :
    verifyChain bothChainsEd25519 sampleBindingBytes sampleTransfers sampleLease 150 =
        .ok sampleEffective ∧
      ∀ transfers' now',
        verifyChain bothChainsEd25519 sampleBindingBytes transfers' sampleLease now' =
          .ok sampleEffective →
        (declared bothChainsEd25519 transfers')[1]? =
          (declared bothChainsEd25519 sampleTransfers)[1]? := by
  have h := verifyChain_sampleTransfers
  exact ⟨h, ((declarations_determined_iff (signing_completedEd25519 _) h).2.2 1 (by decide)).2 rfl⟩

/-- **A cut-off that the result forgets.** Two chains with one result: the first rejects a lease that
the first server issues after its transition, the second honours it. -/
theorem first_cutoff_forgotten :
    verifyChain bothChainsEd25519 sampleBindingBytes sampleTransfers sampleLease 150 =
        .ok sampleEffective ∧
      verifyChain bothChainsEd25519 sampleBindingBytes honouringTransfers sampleLease 150 =
        .ok sampleEffective ∧
      sampleEffective.previousKeys[0]? = some sampleLease ∧
      (declared bothChainsEd25519 sampleTransfers)[0]? =
        some ⟨sampleLease, .rejectAfterTransition, 200⟩ ∧
      (declared bothChainsEd25519 honouringTransfers)[0]? = some ⟨sampleLease, .honour, 200⟩ ∧
      Declaration.Rejects ⟨sampleLease, .rejectAfterTransition, 200⟩ 250 ∧
      ¬Declaration.Rejects ⟨sampleLease, .honour, 200⟩ 250 := by
  refine ⟨verifyChain_sampleTransfers, by decide +kernel, rfl, by decide +kernel, by decide +kernel,
    ⟨rfl, by decide⟩, fun h ↦ nomatch h.1⟩

end Control

end OpenCrate.Protocol
