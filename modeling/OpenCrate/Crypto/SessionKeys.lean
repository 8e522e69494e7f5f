import OpenCrate.Crypto.KeySchedule
import OpenCrate.Data.MachineInt
import OpenCrate.Data.MerkleLevels

/-!
# Conversations, identities and marks

The rest of `kdf`: what a conversation is proved and authenticated with, the hashes that name an operation and a
statement, the fresh values of a server, the choice of a mark, and the secret of a claim code.

Codes and derived keys are functions of their inputs, and nothing is assumed of them. A result that rests on them
names the two inputs on which they would have to collide (`Sha2.CodesCollide`, `Sha2.KeysCollide`).
-/

namespace OpenCrate.Crypto

open Except (refuseIf okOr)

/-- Append a big-endian number of four bytes. -/
def Transcript.u32be (t : Transcript) (value : UInt32) : Transcript := ⟨t.buf ++ toBeBytes value⟩

namespace Kdf

variable (sha : Sha2)

/-! ### Conversations -/

/-- Legacy K23: an echo that does not name the conversation. -/
def proveEcho (challenge : List UInt8) (deviceFpr : Digest) : Digest :=
  sha.hmac challenge (Label.proveEcho.asBytes ++ deviceFpr.toList)

/-- K31: proof-of-possession echo bound to the conversation. -/
def echoTranscript (challenge : List UInt8) (deviceFpr handshake : Digest) : Digest :=
  sha.hmac challenge (Label.echoTranscript.asBytes ++ deviceFpr.toList ++ handshake.toList)

/-- K25: the code of a request, over its kind and body. -/
def requestMac (key : SessionMacKey) (framed : List UInt8) : Digest := sha.hmac key.expose.toList framed

/-- K28: wire operation identity. -/
def operationId (seed : Digest) (kind : UInt8) (body : List UInt8) : Digest :=
  sha.sha256 (Label.operationId.asBytes ++ [0x00] ++ seed.toList ++ [kind] ++ body)

/-- K30: a fresh value of the server, of the length asked for. Expansion is a function of another package. -/
def serverFresh (expand : Digest → List UInt8 → (n : ℕ) → List.Vector UInt8 n) (seed : Digest) (kind : UInt8)
    (now : Int64) (deviceFpr : Digest) (n : ℕ) : Except CryptoError (List.Vector UInt8 n) := do
  let prk := sha.sha256
    (Label.serverFresh.asBytes ++ [0x00] ++ seed.toList ++ [kind] ++ toBeBytes now ++ deviceFpr.toList)
  refuseIf (255 * 32 < n) .badLength
  .ok (expand prk Label.serverFresh.asBytes n)

/-- K29: qualifying data of the statement about a device key. -/
def attestQualify (challenge deviceFpr : Digest) : Digest :=
  sha.sha256 (Label.attestQualify.asBytes ++ [0x00] ++ challenge.toList ++ deviceFpr.toList)

/-! ### Marks and codes -/

/-- The variant of a semantic mark at a point of a copy. -/
def markChoice (key : MacKey) (layout : Digest) (token : UInt64) (point variants : UInt32) :
    Except CryptoError UInt32 := do
  refuseIf (variants = 0) .badLength
  let t := (((Transcript.new .markChoice).fixed layout.toList).u64be token).u32be point
  let tag ← Mac.compute sha key t
  let head ← okOr (ofBeBytes? (tag.toList.take 8) : Option UInt64) .badLength
  okOr (UInt32.tryFrom (head.toNat % variants.toNat)) .badLength

/-- K14: the secret of a claim code, from its canonical text. -/
def claimSecretFromCode (blake3 : List UInt8 → Digest) (canonical : List UInt8) : ClaimSecret :=
  ⟨blake3 (Label.claimCode.asBytes ++ [0x00] ++ canonical)⟩

end Kdf

/-! ### Collisions -/

namespace Sha2

variable (sha : Sha2)

/-- One code for two messages, or under two keys of one length. -/
def CodesCollide (key message key' message' : List UInt8) : Prop :=
  sha.hmac key message = sha.hmac key' message' ∧
    (message ≠ message' ∨ key.length = key'.length ∧ key ≠ key')

/-- One key from two materials, or for two purposes, under one salt. -/
def KeysCollide (salt ikm info ikm' info' : List UInt8) : Prop :=
  sha.hkdf salt ikm info secretLen = sha.hkdf salt ikm' info' secretLen ∧ (ikm ≠ ikm' ∨ info ≠ info')

variable {sha} {key message key' message' salt ikm info ikm' info' : List UInt8}

/-- Two equal codes have equal messages, or they collide. -/
theorem eq_or_codesCollide (h : sha.hmac key message = sha.hmac key' message') :
    (message = message' ∧ (key.length = key'.length → key = key')) ∨
      sha.CodesCollide key message key' message' := by
  by_cases hmessage : message = message'
  · by_cases hkey : key.length = key'.length ∧ key ≠ key'
    · exact Or.inr ⟨h, Or.inr hkey⟩
    · exact Or.inl ⟨hmessage, fun hlen ↦ by_contra fun hne ↦ hkey ⟨hlen, hne⟩⟩
  · exact Or.inr ⟨h, Or.inl hmessage⟩

/-- The same for derived keys. -/
theorem eq_or_keysCollide (h : sha.hkdf salt ikm info secretLen = sha.hkdf salt ikm' info' secretLen) :
    (ikm = ikm' ∧ info = info') ∨ sha.KeysCollide salt ikm info ikm' info' := by
  by_cases hikm : ikm = ikm'
  · by_cases hinfo : info = info'
    · exact Or.inl ⟨hikm, hinfo⟩
    · exact Or.inr ⟨h, Or.inr hinfo⟩
  · exact Or.inr ⟨h, Or.inl hikm⟩

end Sha2

/-! ### What they pin -/

namespace Kdf

variable {sha : Sha2}

/-- A commitment pins the wrapping key and the core that it was made for. -/
theorem eq_of_slotCommitment {kek kek' : Kek} {core core' : Digest}
    (h : slotCommitment sha kek core = slotCommitment sha kek' core') :
    (kek = kek' ∧ core = core') ∨
      sha.CodesCollide kek.expose.toList (Label.slotCommit.asBytes ++ core.toList) kek'.expose.toList
        (Label.slotCommit.asBytes ++ core'.toList) := by
  refine (Sha2.eq_or_codesCollide h).imp_left fun heq ↦ ?_
  obtain ⟨hmessage, hkey⟩ := heq
  obtain ⟨kek⟩ := kek
  obtain ⟨kek'⟩ := kek'
  have hkek : kek.toList = kek'.toList := hkey (by rw [kek.toList_length, kek'.toList_length])
  exact ⟨congrArg Kek.mk (List.Vector.eq _ _ hkek), List.Vector.eq _ _ (List.append_cancel_left hmessage)⟩

/-- A wrapping key pins both shares, since each has a fixed length. -/
theorem eq_of_deriveKek {fileId : List.Vector UInt8 16} {orgId : List UInt8} {a a' : SecretA} {b b' : SecretB}
    (h : deriveKek sha fileId orgId a b = deriveKek sha fileId orgId a' b') :
    (a = a' ∧ b = b') ∨
      sha.KeysCollide fileId.toList (a.expose.toList ++ b.expose.toList)
        (Label.kek.asBytes ++ orgId ++ fileId.toList) (a'.expose.toList ++ b'.expose.toList)
        (Label.kek.asBytes ++ orgId ++ fileId.toList) := by
  refine (Sha2.eq_or_keysCollide (Kek.mk.inj h)).imp_left fun heq ↦ ?_
  obtain ⟨a⟩ := a
  obtain ⟨b⟩ := b
  obtain ⟨a'⟩ := a'
  obtain ⟨b'⟩ := b'
  obtain ⟨ha, hb⟩ := prefixFree_vector 32 a a' b.toList b'.toList heq.1
  exact ⟨congrArg SecretA.mk ha, congrArg SecretB.mk (List.Vector.eq _ _ hb)⟩

/-- The share of a claim code pins the secret of the code. -/
theorem eq_of_secretBFromClaim {fileId : List.Vector UInt8 16} {claim claim' : ClaimSecret}
    (h : (secretBFromClaim sha fileId claim).1 = (secretBFromClaim sha fileId claim').1) :
    claim = claim' ∨
      sha.KeysCollide fileId.toList claim.expose.toList Label.slotBClaim.asBytes claim'.expose.toList
        Label.slotBClaim.asBytes := by
  refine (Sha2.eq_or_keysCollide (SecretB.mk.inj h)).imp_left fun heq ↦ ?_
  obtain ⟨claim⟩ := claim
  obtain ⟨claim'⟩ := claim'
  exact congrArg ClaimSecret.mk (List.Vector.eq _ _ heq.1)

/-- What is hashed of a claim code. -/
def claimCodeInput (canonical : List UInt8) : List UInt8 := Label.claimCode.asBytes ++ [0x00] ++ canonical

/-- The secret of a claim code pins its text. -/
theorem eq_of_claimSecretFromCode {blake3 : List UInt8 → Digest} {code code' : List UInt8}
    (h : claimSecretFromCode blake3 code = claimSecretFromCode blake3 code') :
    code = code' ∨ Merkle.Collides blake3 [claimCodeInput code] [claimCodeInput code'] := by
  refine (Merkle.eq_or_collides (List.mem_singleton_self _) (List.mem_singleton_self _)
    (ClaimSecret.mk.inj h)).imp_left fun heq ↦ ?_
  exact List.append_cancel_left heq

/-- A mark is one of the variants, and there is one wherever there are variants. -/
theorem markChoice_lt {key : MacKey} {layout : Digest} {token : UInt64} {point variants : UInt32}
    (h : variants ≠ 0) : ∃ choice, markChoice sha key layout token point variants = .ok choice ∧
      choice < variants := by
  have hpos : 0 < variants.toNat := Nat.pos_of_ne_zero fun hzero ↦ h (UInt32.toNat_inj.mp hzero)
  obtain ⟨tag, htag⟩ : ∃ tag, Mac.compute sha key
      ((((Transcript.new .markChoice).fixed layout.toList).u64be token).u32be point) = .ok tag := ⟨_, rfl⟩
  have hlen : ((tag.toList.take 8).reverse).length = LeInt.width UInt64 := by
    rw [List.length_reverse, List.length_take, tag.toList_length, LeInt.width_uint64]
    decide
  obtain ⟨head, hhead⟩ : ∃ head : UInt64, ofBeBytes? (tag.toList.take 8) = some head := ⟨_, if_pos hlen⟩
  obtain ⟨choice, hchoice⟩ : ∃ choice, UInt32.tryFrom (head.toNat % variants.toNat) = some choice :=
    ⟨_, if_pos ((Nat.mod_lt _ hpos).trans variants.toNat_lt)⟩
  refine ⟨choice, ?_, ?_⟩
  · rw [markChoice, Except.refuseIf_of_not h, Except.ok_bind]
    dsimp only
    rw [htag, Except.ok_bind, hhead, Except.okOr_some, Except.ok_bind, hchoice, Except.okOr_some]
  · rw [UInt32.lt_iff_toNat_lt, UInt32.tryFrom_eq_some_iff.mp hchoice]
    exact Nat.mod_lt _ hpos

end Kdf

end OpenCrate.Crypto
