import OpenCrate.Crypto.Aead
import OpenCrate.Crypto.Agreement

/-!
# Wrapping the content key

`wrap` of `oc-crypto`: the content key is random and wrapped under a key derived from both shares. The
hash of the header's core is the associated data, and the commitment to the wrapping key is compared
before anything is opened.
-/

namespace OpenCrate.Crypto.Wrap

open Except (refuseIf okOr)

/-- Wrapping nonce length. -/
def wrapNonceLen : ℕ := 24

/-- Wrapped key length: nonce, key, and tag. -/
def wrappedCekLen : ℕ := wrapNonceLen + secretLen + 16

variable (sha : Sha2) (c : XChaCha)

/-- Wrap the content key: the wrapped key and the slot commitment. -/
def wrapCek {γ : Type} (kek : Kek) (cek : Cek) (coreHash : Digest) (rng : Rng γ) (g : γ) :
    Except CryptoError ((List.Vector UInt8 wrappedCekLen × Digest) × γ) := do
  let (nonceSeed, g) := rng.fillBytes g wrapNonceLen
  let nonce ← Kdf.hedgedNonce sha wrapNonceLen .wrapNonce nonceSeed.toList cek.expose.toList
    coreHash.toList
  let sealed ← okOr (c.encrypt kek.expose nonce cek.expose.toList coreHash.toList) .authentication
  let wrapped ← okOr (toVector? wrappedCekLen (nonce.toList ++ sealed)) .badLength
  .ok ((wrapped, Kdf.slotCommitment sha kek coreHash), g)

/-- Unwrap the content key. -/
def unwrapCek (kek : Kek) (wrapped : List.Vector UInt8 wrappedCekLen) (commitment coreHash : Digest) :
    Except CryptoError Cek := do
  Kdf.verifyCommitment (Kdf.slotCommitment sha kek coreHash) commitment
  let nonce ← okOr (toVector? wrapNonceLen (wrapped.toList.take wrapNonceLen)) .badLength
  let opened ← okOr
    (c.decrypt kek.expose nonce (wrapped.toList.drop wrapNonceLen) coreHash.toList) .authentication
  let bytes ← okOr (toVector? secretLen opened) .badLength
  .ok ⟨bytes⟩

/-- **What was wrapped is unwrapped** under the same key, the same hash and its commitment. -/
theorem unwrapCek_of_wrapCek {sha : Sha2} {c : XChaCha} (hc : c.Lawful) {γ : Type} {kek : Kek}
    {cek : Cek} {coreHash commitment : Digest} {rng : Rng γ} {g g' : γ}
    {wrapped : List.Vector UInt8 wrappedCekLen}
    (h : wrapCek sha c kek cek coreHash rng g = .ok ((wrapped, commitment), g')) :
    unwrapCek sha c kek wrapped commitment coreHash = .ok cek := by
  simp only [wrapCek, Except.bind_eq_ok_iff, Except.okOr_eq_ok_iff, Except.ok.injEq,
    Prod.mk.injEq, toVector?_eq_some_iff] at h
  obtain ⟨nonce, -, sealed, hsealed, wrapped, hwrapped, ⟨rfl, rfl⟩, -⟩ := h
  rw [unwrapCek, Kdf.verifyCommitment, Except.refuseIf_of_not (not_not.mpr rfl), Except.ok_bind,
    ← hwrapped, take_toList_append, drop_toList_append, toVector?_toList, Except.okOr_some,
    Except.ok_bind]
  have hopened : c.decrypt kek.expose nonce sealed coreHash.toList = some cek.expose.toList :=
    hc.decrypt_encrypt hsealed
  rw [hopened, Except.okOr_some, Except.ok_bind]
  show okOr (toVector? 32 cek.expose.toList) CryptoError.badLength >>= _ = _
  rw [toVector?_toList]
  rfl

end OpenCrate.Crypto.Wrap
