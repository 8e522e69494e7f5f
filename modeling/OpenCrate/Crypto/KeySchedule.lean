import OpenCrate.Crypto.Seal

/-!
# The inputs of the key schedule

Every key of the schedule is one call of HKDF, and what tells two calls apart is the purpose that HKDF
expands: a label and, after it, the parameters of the derivation, with no separator between them. The
label is read off the front, since the registry is prefix-free; behind it at most one part has no fixed
length. A `Derivation` is a function of the schedule with the parameters of its purpose, and
`Derivation.info` is injective.

Keys of slots have a second input that is a concatenation: shared secret, encapsulation and public key.
Its total length tells the executed mechanisms apart.
-/

namespace OpenCrate.Crypto

/-! ### Purposes -/

/-- What a slot is for. -/
inductive SlotPurpose where
  | server
  | recipient
  | authorDevice
  deriving DecidableEq

/-- The label of a slot. -/
def SlotPurpose.label : SlotPurpose → Label
  | server => .slotServer
  | recipient => .slotRecipient
  | authorDevice => .slotAuthorDevice

theorem SlotPurpose.label_injective : Function.Injective SlotPurpose.label := by
  intro p q h
  cases p <;> cases q <;> first | rfl | cases h

theorem AeadAlg.toU8_injective : Function.Injective AeadAlg.toU8 := by
  intro a b h
  cases a <;> cases b <;> first | rfl | exact absurd h (by decide)

theorem KemAlg.prefixFree_toU8 : PrefixFree fun kem : KemAlg ↦ [kem.toU8] :=
  PrefixFree.of_length (fun _ ↦ rfl) fun a b h ↦ by
    have hfrom : KemAlg.fromU8 a.toU8 = KemAlg.fromU8 b.toU8 :=
      congrArg _ (List.cons.inj h).1
    rw [KemAlg.fromU8_toU8, KemAlg.fromU8_toU8] at hfrom
    exact Except.ok.inj hfrom

/-- The purposes under which a secret is sealed, with their parameters. -/
inductive SealPurpose where
  | slot (purpose : SlotPurpose) (kem : KemAlg) (fileId : List.Vector UInt8 16)
  | aToDevice (kem : KemAlg) (fileId : List.Vector UInt8 16) (deviceFpr : Digest) (seq : UInt64)
  | bToDevice (kem : KemAlg) (fileId : List.Vector UInt8 16) (deviceFpr : Digest)
  | challenge (deviceFpr : Digest)
  deriving DecidableEq

namespace SealPurpose

/-- The bytes given to the seal. -/
def info : SealPurpose → List UInt8
  | slot purpose kem fileId => Seal.slotInfo purpose.label kem fileId
  | aToDevice kem fileId deviceFpr seq => Seal.aToDeviceInfo kem fileId deviceFpr seq
  | bToDevice kem fileId deviceFpr => Seal.bToDeviceInfo kem fileId deviceFpr
  | challenge deviceFpr => Seal.challengeInfo deviceFpr

/-- The label they start with. -/
def label : SealPurpose → Label
  | slot purpose _ _ => purpose.label
  | aToDevice .. => .aToDevice
  | bToDevice .. => .bToDevice
  | challenge _ => .attestNonce

/-- The parameters behind the label. -/
def params : SealPurpose → List UInt8
  | slot _ kem fileId => [kem.toU8] ++ fileId.toList
  | aToDevice kem fileId deviceFpr seq =>
    [kem.toU8] ++ (fileId.toList ++ (deviceFpr.toList ++ toBeBytes seq))
  | bToDevice kem fileId deviceFpr => [kem.toU8] ++ (fileId.toList ++ deviceFpr.toList)
  | challenge deviceFpr => deviceFpr.toList

/-- The info bytes of a sealing are a label and its parameters. -/
theorem info_eq (p : SealPurpose) : p.info = p.label.asBytes ++ p.params := by
  cases p <;> simp only [info, label, params, Seal.slotInfo, Seal.aToDeviceInfo,
    Seal.bToDeviceInfo, Seal.challengeInfo, List.append_assoc]

/-- A purpose is read back from its bytes. -/
theorem info_injective : Function.Injective info := by
  intro p q h
  rw [info_eq, info_eq] at h
  obtain ⟨hlabel, hparams⟩ := Label.prefixFree_asBytes _ _ _ _ h
  -- the label tells the purposes apart, and the parameters have fixed widths
  cases p with
  | slot purpose kem fileId =>
    cases q with
    | slot purpose' kem' fileId' =>
      obtain ⟨hkem, hfile⟩ := KemAlg.prefixFree_toU8 _ _ _ _ hparams
      rw [SlotPurpose.label_injective hlabel, hkem, List.Vector.eq _ _ hfile]
    | _ => cases purpose <;> cases hlabel
  | aToDevice kem fileId deviceFpr seq =>
    cases q with
    | aToDevice kem' fileId' deviceFpr' seq' =>
      obtain ⟨hkem, hrest⟩ := KemAlg.prefixFree_toU8 _ _ _ _ hparams
      obtain ⟨hfile, hrest⟩ := prefixFree_vector 16 _ _ _ _ hrest
      obtain ⟨hfpr, hseq⟩ := prefixFree_vector 32 _ _ _ _ hrest
      rw [hkem, hfile, hfpr, prefixFree_toBeBytes.injective hseq]
    | slot purpose _ _ => cases purpose <;> cases hlabel
    | _ => cases hlabel
  | bToDevice kem fileId deviceFpr =>
    cases q with
    | bToDevice kem' fileId' deviceFpr' =>
      obtain ⟨hkem, hrest⟩ := KemAlg.prefixFree_toU8 _ _ _ _ hparams
      obtain ⟨hfile, hfpr⟩ := prefixFree_vector 16 _ _ _ _ hrest
      rw [hkem, hfile, List.Vector.eq _ _ hfpr]
    | slot purpose _ _ => cases purpose <;> cases hlabel
    | _ => cases hlabel
  | challenge deviceFpr =>
    cases q with
    | challenge deviceFpr' => rw [List.Vector.eq _ _ hparams]
    | slot purpose _ _ => cases purpose <;> cases hlabel
    | _ => cases hlabel

end SealPurpose

/-! ### Derivations -/

/-- The functions of the schedule, with the parameters that enter the purpose. A claim code gives two
keys. -/
inductive Derivation where
  | kek (orgId : List UInt8) (fileId : List.Vector UInt8 16)
  | payload (fileId : List.Vector UInt8 16) (chunkSize : UInt32) (aead : AeadAlg)
  | privateMeta (fileId : List.Vector UInt8 16)
  | contentMac (fileId : List.Vector UInt8 16)
  | sessionMac (deviceFpr : Digest)
  | witness
  | deviceFromClaim
  | secretBFromClaim
  | commitmentFromClaim
  | sealKey (purpose : SealPurpose)
  deriving DecidableEq

namespace Derivation

/-- The label of a derivation. -/
def label : Derivation → Label
  | kek .. => .kek
  | payload .. => .payload
  | privateMeta _ => .privateMeta
  | contentMac _ => .contentMac
  | sessionMac _ => .sessionMac
  | witness => .cachedLease
  | deviceFromClaim => .claimDevice
  | secretBFromClaim => .slotBClaim
  | commitmentFromClaim => .slotBCommit
  | sealKey _ => .sealKey

/-- The parameters behind the label. -/
def params : Derivation → List UInt8
  | kek orgId fileId => orgId ++ fileId.toList
  | payload fileId chunkSize aead => fileId.toList ++ (toBeBytes chunkSize ++ [aead.toU8])
  | privateMeta fileId => fileId.toList
  | contentMac fileId => fileId.toList
  | sessionMac deviceFpr => deviceFpr.toList
  | witness | deviceFromClaim | secretBFromClaim | commitmentFromClaim => []
  | sealKey purpose => purpose.info

/-- What HKDF expands. -/
def info (d : Derivation) : List UInt8 := d.label.asBytes ++ d.params

/-- No two derivations share their purpose. -/
theorem info_injective : Function.Injective info := by
  intro d e h
  obtain ⟨hlabel, hparams⟩ := Label.prefixFree_asBytes _ _ _ _ h
  cases d with
  | kek orgId fileId =>
    cases e with
    | kek orgId' fileId' =>
      -- the organization is what stands before the last sixteen bytes
      obtain ⟨horg, hfile⟩ := List.append_inj' hparams (by simp only [List.Vector.toList_length])
      rw [horg, List.Vector.eq _ _ hfile]
    | _ => cases hlabel
  | payload fileId chunkSize aead =>
    cases e with
    | payload fileId' chunkSize' aead' =>
      obtain ⟨hfile, hrest⟩ := prefixFree_vector 16 _ _ _ _ hparams
      obtain ⟨hchunk, haead⟩ := prefixFree_toBeBytes _ _ _ _ hrest
      rw [hfile, hchunk, AeadAlg.toU8_injective (List.cons.inj haead).1]
    | _ => cases hlabel
  | privateMeta fileId =>
    cases e with
    | privateMeta fileId' => rw [List.Vector.eq _ _ hparams]
    | _ => cases hlabel
  | contentMac fileId =>
    cases e with
    | contentMac fileId' => rw [List.Vector.eq _ _ hparams]
    | _ => cases hlabel
  | sessionMac deviceFpr =>
    cases e with
    | sessionMac deviceFpr' => rw [List.Vector.eq _ _ hparams]
    | _ => cases hlabel
  | witness =>
    cases e with
    | witness => rfl
    | _ => cases hlabel
  | deviceFromClaim =>
    cases e with
    | deviceFromClaim => rfl
    | _ => cases hlabel
  | secretBFromClaim =>
    cases e with
    | secretBFromClaim => rfl
    | _ => cases hlabel
  | commitmentFromClaim =>
    cases e with
    | commitmentFromClaim => rfl
    | _ => cases hlabel
  | sealKey purpose =>
    cases e with
    | sealKey purpose' => rw [SealPurpose.info_injective hparams]
    | _ => cases hlabel

end Derivation

/-! ### Calls -/

/-- What enters the key of a seal beside its purpose. -/
@[ext] structure SealInput where
  shared : Digest
  ephPublic : List UInt8
  recipientPublic : List UInt8
  deriving DecidableEq

namespace SealInput

/-- The input key material: the three parts, one after the other. -/
def ikm (x : SealInput) : List UInt8 := x.shared.toList ++ x.ephPublic ++ x.recipientPublic

/-- The length of an encapsulation, if the mechanism is executed. -/
def encLen : KemAlg → Option ℕ
  | .x25519HkdfSha256 => some 32
  | .p256HkdfSha256 => some 65
  | .xWing => some Xwing.ciphertextLen
  | .mlKem768P256 => some MlkemP256.ciphertextLen
  | .rsaOaepSha256 => none

/-- The encapsulation and the public key have the lengths of the mechanism, which is an executed
one. -/
structure Fits (x : SealInput) (kem : KemAlg) : Prop where
  supported : kem.ensureSupported = .ok ()
  ephPublic : encLen kem = some x.ephPublic.length
  recipientPublic : Kdf.publicKeyLen kem = some x.recipientPublic.length

variable {x y : SealInput} {kem kem' : KemAlg}

/-- The length of the input key material tells the mechanisms apart. -/
theorem Fits.kem_eq (hx : x.Fits kem) (hy : y.Fits kem') (h : x.ikm = y.ikm) : kem = kem' := by
  have hlen := congrArg List.length h
  simp only [ikm, List.length_append, List.Vector.toList_length] at hlen
  have hx₁ := hx.ephPublic
  have hx₂ := hx.recipientPublic
  have hy₁ := hy.ephPublic
  have hy₂ := hy.recipientPublic
  cases kem <;> cases kem' <;>
    simp only [encLen, Kdf.publicKeyLen, Xwing.ciphertextLen, MlkemP256.ciphertextLen,
      Option.some.injEq, reduceCtorEq] at hx₁ hx₂ hy₁ hy₂ ⊢ <;>
    omega

/-- Inputs of executed mechanisms are read back from their concatenation. -/
theorem Fits.eq_of_ikm_eq (hx : x.Fits kem) (hy : y.Fits kem') (h : x.ikm = y.ikm) :
    kem = kem' ∧ x = y := by
  have hkem := hx.kem_eq hy h
  subst hkem
  have heph : x.ephPublic.length = y.ephPublic.length :=
    Option.some.inj (hx.ephPublic.symm.trans hy.ephPublic)
  obtain ⟨hleft, hrecipient⟩ := List.append_inj h (by
    simp only [List.length_append, List.Vector.toList_length, heph])
  obtain ⟨hshared, hephPublic⟩ := prefixFree_vector 32 _ _ _ _ hleft
  exact ⟨rfl, SealInput.ext hshared hephPublic hrecipient⟩

end SealInput

/-- A call of one of the deriving functions, with everything it is given. -/
inductive DeriveCall where
  | kek (fileId : List.Vector UInt8 16) (orgId : List UInt8) (a : SecretA) (b : SecretB)
  | payloadKey (cek : Cek) (headerSalt : Digest) (fileId : List.Vector UInt8 16)
    (chunkSize : UInt32) (aead : AeadAlg)
  | privateMetaKey (cek : Cek) (headerSalt : Digest) (fileId : List.Vector UInt8 16)
  | contentMacKey (cek : Cek) (headerSalt : Digest) (fileId : List.Vector UInt8 16)
  | sessionMacKey (challenge : List UInt8) (deviceFpr : Digest)
  | witnessKey (device : X25519Secret)
  | deviceSecretFromClaim (fileId : List.Vector UInt8 16) (claim : ClaimSecret)
  | secretBFromClaim (fileId : List.Vector UInt8 16) (claim : ClaimSecret)
  | commitmentFromClaim (fileId : List.Vector UInt8 16) (claim : ClaimSecret)
  | sealKey (purpose : SealPurpose) (x : SealInput)

namespace DeriveCall

variable (sha : Sha2)

/-- The output of the called function. -/
def run : DeriveCall → Except CryptoError Digest
  | kek fileId orgId a b => .ok (Kdf.deriveKek sha fileId orgId a b).expose
  | payloadKey cek headerSalt fileId chunkSize aead =>
    .ok (Kdf.derivePayloadKey sha cek headerSalt fileId chunkSize aead).expose
  | privateMetaKey cek headerSalt fileId =>
    .ok (Kdf.derivePrivateMetaKey sha cek headerSalt fileId).expose
  | contentMacKey cek headerSalt fileId =>
    .ok (Kdf.deriveContentMacKey sha cek headerSalt fileId).expose
  | sessionMacKey challenge deviceFpr =>
    .ok (Kdf.deriveSessionMacKey sha challenge deviceFpr).expose
  | witnessKey device => .ok (Kdf.deriveWitnessKey sha device).expose
  | deviceSecretFromClaim fileId claim => .ok (Kdf.deviceSecretFromClaim sha fileId claim)
  | secretBFromClaim fileId claim => .ok (Kdf.secretBFromClaim sha fileId claim).1.expose
  | commitmentFromClaim fileId claim => .ok (Kdf.secretBFromClaim sha fileId claim).2
  | sealKey purpose x =>
    Seal.deriveKey sha x.shared x.ephPublic x.recipientPublic purpose.info

/-- The salt of the call. -/
def salt : DeriveCall → List UInt8
  | kek fileId _ _ _ => fileId.toList
  | payloadKey _ headerSalt _ _ _ => headerSalt.toList
  | privateMetaKey _ headerSalt _ => headerSalt.toList
  | contentMacKey _ headerSalt _ => headerSalt.toList
  | sessionMacKey _ _ | witnessKey _ | sealKey _ _ => []
  | deviceSecretFromClaim fileId _ => fileId.toList
  | secretBFromClaim fileId _ => fileId.toList
  | commitmentFromClaim fileId _ => fileId.toList

/-- The input key material of the call. -/
def ikm : DeriveCall → List UInt8
  | kek _ _ a b => a.expose.toList ++ b.expose.toList
  | payloadKey cek _ _ _ _ => cek.expose.toList
  | privateMetaKey cek _ _ => cek.expose.toList
  | contentMacKey cek _ _ => cek.expose.toList
  | sessionMacKey challenge _ => challenge
  | witnessKey device => device.expose.toList
  | deviceSecretFromClaim _ claim => claim.expose.toList
  | secretBFromClaim _ claim => claim.expose.toList
  | commitmentFromClaim _ claim => claim.expose.toList
  | sealKey _ x => x.ikm

/-- The derivation of the call: its function and the parameters of its purpose. -/
def derivation : DeriveCall → Derivation
  | kek fileId orgId _ _ => .kek orgId fileId
  | payloadKey _ _ fileId chunkSize aead => .payload fileId chunkSize aead
  | privateMetaKey _ _ fileId => .privateMeta fileId
  | contentMacKey _ _ fileId => .contentMac fileId
  | sessionMacKey _ deviceFpr => .sessionMac deviceFpr
  | witnessKey _ => .witness
  | deviceSecretFromClaim _ _ => .deviceFromClaim
  | secretBFromClaim _ _ => .secretBFromClaim
  | commitmentFromClaim _ _ => .commitmentFromClaim
  | sealKey purpose _ => .sealKey purpose

/-- Every function of the schedule is one call of HKDF with these inputs. -/
theorem run_eq_ok {call : DeriveCall} {key : Digest} (h : call.run sha = .ok key) :
    key = sha.hkdf call.salt call.ikm call.derivation.info secretLen := by
  cases call with
  | kek fileId orgId a b =>
    cases h
    simp only [Kdf.deriveKek, salt, ikm, derivation, Derivation.info, Derivation.label,
      Derivation.params, List.append_assoc]
    rfl
  | payloadKey cek headerSalt fileId chunkSize aead =>
    cases h
    simp only [Kdf.derivePayloadKey, salt, ikm, derivation, Derivation.info, Derivation.label,
      Derivation.params, List.append_assoc]
    rfl
  | sealKey purpose x =>
    obtain ⟨_, -, hkey⟩ := Except.bind_eq_ok_iff.mp h
    exact (Except.ok.inj hkey).symm
  | deviceSecretFromClaim fileId claim =>
    cases h
    simp only [Kdf.deviceSecretFromClaim, salt, ikm, derivation, Derivation.info,
      Derivation.label, Derivation.params, List.append_nil]
    rfl
  | secretBFromClaim fileId claim =>
    cases h
    simp only [Kdf.secretBFromClaim, salt, ikm, derivation, Derivation.info, Derivation.label,
      Derivation.params, List.append_nil]
    rfl
  | commitmentFromClaim fileId claim =>
    cases h
    simp only [Kdf.secretBFromClaim, salt, ikm, derivation, Derivation.info, Derivation.label,
      Derivation.params, List.append_nil]
    rfl
  | witnessKey device =>
    cases h
    simp only [Kdf.deriveWitnessKey, salt, ikm, derivation, Derivation.info, Derivation.label,
      Derivation.params, List.append_nil]
    rfl
  | _ =>
    cases h
    rfl

end DeriveCall

/-- **No two derivations of the schedule share the inputs of HKDF.** What a function of the schedule
returns is one call of HKDF under its purpose. The purposes of two calls are equal only for one function
with equal parameters, and where both make keys of seals, under executed mechanisms with values of their
lengths, the input key material determines what it is made of. -/
theorem DeriveCall.inputs_separate (call call' : DeriveCall) :
    (∀ (sha : Sha2) key, call.run sha = .ok key →
        key = sha.hkdf call.salt call.ikm call.derivation.info secretLen) ∧
      (call.derivation.info = call'.derivation.info → call.derivation = call'.derivation ∧
        ∀ {purpose purpose' x x' kem kem'}, call = .sealKey purpose x →
          call' = .sealKey purpose' x' → x.Fits kem → x'.Fits kem' → call.ikm = call'.ikm →
            kem = kem' ∧ x = x') := by
  refine ⟨fun sha key ↦ run_eq_ok sha, fun h ↦ ⟨Derivation.info_injective h, ?_⟩⟩
  intro purpose purpose' x x' kem kem' hcall hcall' hx hx' hikm
  rw [hcall, hcall'] at hikm
  exact hx.eq_of_ikm_eq hx' hikm

/-- Two wrapping keys of one file share their purpose whatever the shares are, and the input of a
challenge is read back. -/
theorem DeriveCall.inputs_separate_challenge :
    let fileId := List.Vector.replicate 16 1
    let a := List.Vector.replicate 32 2
    let b := List.Vector.replicate 32 3
    let x : SealInput := ⟨a, List.replicate 32 4, List.replicate 32 5⟩
    (kek fileId [6] ⟨a⟩ ⟨b⟩).derivation = (kek fileId [6] ⟨b⟩ ⟨a⟩).derivation ∧
      KemAlg.x25519HkdfSha256 = KemAlg.x25519HkdfSha256 ∧ x = x := by
  intro fileId a b x
  have hfits : x.Fits .x25519HkdfSha256 :=
    ⟨rfl, rfl, rfl⟩
  have hkek := inputs_separate (kek fileId [6] ⟨a⟩ ⟨b⟩) (kek fileId [6] ⟨b⟩ ⟨a⟩)
  have hseal := inputs_separate (sealKey (.challenge b) x) (sealKey (.challenge b) x)
  exact ⟨(hkek.2 rfl).1, (hseal.2 rfl).2 rfl rfl hfits hfits rfl⟩

/-! ### Hedged nonces -/

namespace Kdf

/-- The input of a hedged nonce, apart from its seed. -/
def hedgeInput (plaintext aad : List UInt8) : List UInt8 :=
  toBeBytes (UInt32.ofNat plaintext.length) ++ plaintext ++ toBeBytes (UInt32.ofNat aad.length) ++ aad

/-- A hedged nonce takes lengths that fit into 32 bits. -/
theorem hedgedNonce_eq_ok_iff {sha : Sha2} {n : ℕ} {label : Label} {seed plaintext aad : List UInt8}
    {nonce : List.Vector UInt8 n} :
    hedgedNonce sha n label seed plaintext aad = .ok nonce ↔
      plaintext.length < 2 ^ 32 ∧ aad.length < 2 ^ 32 ∧
        nonce = sha.hkdf seed (hedgeInput plaintext aad) label.asBytes n := by
  simp only [hedgedNonce, Except.bind_eq_ok_iff, Except.refuseIf_eq_ok_iff, not_le, Except.ok.injEq]
  constructor
  · intro h
    obtain ⟨-, hplaintext, -, haad, hnonce⟩ := h
    exact ⟨hplaintext, haad, hnonce.symm⟩
  · intro h
    exact ⟨(), h.1, (), h.2.1, h.2.2.symm⟩

/-- Both lengths are written in front, so the input determines its parts. -/
theorem hedgeInput_inj {p p' aad aad' : List UInt8} (hp : p.length < 2 ^ 32) (hp' : p'.length < 2 ^ 32)
    (h : hedgeInput p aad = hedgeInput p' aad') : p = p' ∧ aad = aad' := by
  simp only [hedgeInput, List.append_assoc] at h
  obtain ⟨hlen, hrest⟩ := prefixFree_toBeBytes _ _ _ _ h
  have hlength : p.length = p'.length := by
    have hnat := congrArg UInt32.toNat hlen
    rwa [UInt32.toNat_ofNat_of_lt' hp, UInt32.toNat_ofNat_of_lt' hp'] at hnat
  obtain ⟨hplaintext, htail⟩ := List.append_inj hrest hlength
  exact ⟨hplaintext, (prefixFree_toBeBytes _ _ _ _ htail).2⟩

end Kdf

end OpenCrate.Crypto
