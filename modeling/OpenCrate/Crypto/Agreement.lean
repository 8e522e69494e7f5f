import OpenCrate.Crypto.Kdf

/-!
# Key agreement and hybrid encapsulation

`agreement`, `xwing` and `mlkem_p256` of `oc-crypto`. The curves, ML-KEM and SHA-3 are functions of
other packages and parameters here (`Kems`), with what is documented about them as a structure of laws;
the two hybrids that combine them are the repository's own. The decapsulating side recomputes its public
half from the secret, and what it recovers is the secret of the encapsulation
(`Xwing.decapsulate_encapsulateDerand`,
`MlkemP256.decapsulateWith_encapsulateDerand`).
-/

namespace OpenCrate.Crypto

open Except (refuseIf okOr)

/-! ### Functions of other packages -/

/-- X25519: the public key of a secret, and the shared secret with a peer. -/
structure X25519 where
  publicKey : Digest → Digest
  diffieHellman : Digest → Digest → Digest

/-- P-256: scalars, uncompressed points, and the first coordinate of the shared point. -/
structure P256 where
  SecretKey : Type
  PublicKey : Type
  fromSlice : Digest → Option SecretKey
  generateFromRng : {γ : Type} → Rng γ → γ → SecretKey × γ
  publicKey : SecretKey → List.Vector UInt8 65
  fromSec1Bytes : List UInt8 → Option PublicKey
  diffieHellman : SecretKey → PublicKey → Digest

/-- ML-KEM-768: both keys of a seed, the key of its encoding, and encapsulation with given randomness. -/
structure MlKem768 where
  DecapsulationKey : Type
  EncapsulationKey : Type
  fromSeed : List.Vector UInt8 64 → DecapsulationKey × List.Vector UInt8 1184
  newFromSlice : List.Vector UInt8 1184 → Option EncapsulationKey
  encapsulateDeterministic : EncapsulationKey → Digest → List.Vector UInt8 1088 × Digest
  decapsulate : DecapsulationKey → List.Vector UInt8 1088 → Digest

/-- The mechanisms of key encapsulation, and SHA-3. -/
structure Kems where
  x25519 : X25519
  p256 : P256
  mlKem : MlKem768
  sha3 : List UInt8 → Digest
  shake256 : List UInt8 → (n : ℕ) → List.Vector UInt8 n

/-- Whether a coordinate is the reduced one: compared from its most significant byte on, it lies below
`2 ^ 255 - 19`. -/
def canonicalX25519Public (publicKey : Digest) : Bool :=
  decide (publicKey.toList.reverse < 0x7f :: List.replicate 30 0xff ++ [0xed])

/-- What is documented about the mechanisms: both sides of an agreement reach the same secret, public
keys have one encoding, and decapsulation undoes encapsulation. -/
structure Kems.Lawful (k : Kems) : Prop where
  x25519_comm : ∀ a b, k.x25519.diffieHellman a (k.x25519.publicKey b) =
    k.x25519.diffieHellman b (k.x25519.publicKey a)
  x25519_canonical : ∀ a, canonicalX25519Public (k.x25519.publicKey a) = true
  p256_uncompressed : ∀ s, (k.p256.publicKey s).toList.head? = some 0x04
  p256_fromSec1Bytes : ∀ s, ∃ p, k.p256.fromSec1Bytes (k.p256.publicKey s).toList = some p
  p256_comm : ∀ {a b p q}, k.p256.fromSec1Bytes (k.p256.publicKey a).toList = some p →
    k.p256.fromSec1Bytes (k.p256.publicKey b).toList = some q →
      k.p256.diffieHellman a q = k.p256.diffieHellman b p
  mlKem_decapsulate : ∀ {seed ek} (m), k.mlKem.newFromSlice (k.mlKem.fromSeed seed).2 = some ek →
    k.mlKem.decapsulate (k.mlKem.fromSeed seed).1 (k.mlKem.encapsulateDeterministic ek m).1 =
      (k.mlKem.encapsulateDeterministic ek m).2

/-! ### Parts of fixed length -/

section Parts

variable {α : Type} {n : ℕ}

@[simp] theorem toVector?_toList (v : List.Vector α n) : toVector? n v.toList = some v :=
  toVector?_eq_some_iff.mpr rfl

theorem take_toList_append (v : List.Vector α n) (l : List α) : (v.toList ++ l).take n = v.toList :=
  List.take_left' v.toList_length

theorem drop_toList_append (v : List.Vector α n) (l : List α) : (v.toList ++ l).drop n = l :=
  List.drop_left' v.toList_length

end Parts

/-! ### Agreement providers -/

/-- An agreement party: its own half is known, the peer's half is input. -/
structure KeyAgreement where
  publicKey : List UInt8
  agree : List UInt8 → Except CryptoError Digest

variable (k : Kems)

/-- Software P-256. Parsing the peer's point is what checks it. -/
def p256Agreement (secret : k.p256.SecretKey) : KeyAgreement where
  publicKey := (k.p256.publicKey secret).toList
  agree peerPublic := do
    let peer ← okOr (k.p256.fromSec1Bytes peerPublic) .badKey
    .ok (k.p256.diffieHellman secret peer)

variable {k} in
/-- Both sides reach the same secret. -/
theorem agree_comm (hk : k.Lawful) (a b : k.p256.SecretKey) :
    ∃ shared, (p256Agreement k a).agree (k.p256.publicKey b).toList = .ok shared ∧
      (p256Agreement k b).agree (k.p256.publicKey a).toList = .ok shared := by
  obtain ⟨p, hp⟩ := hk.p256_fromSec1Bytes a
  obtain ⟨q, hq⟩ := hk.p256_fromSec1Bytes b
  refine ⟨k.p256.diffieHellman a q, ?_, ?_⟩
  · simp [p256Agreement, hq]
  · simp [p256Agreement, hp, hk.p256_comm hp hq]

/-! ### X-Wing -/

namespace Xwing

/-- Length of the public half. -/
def publicKeyLen : ℕ := 1216

/-- Length of the ciphertext. -/
def ciphertextLen : ℕ := 1120

/-- Length of the ML-KEM public key in it. -/
def mlKemPublicLen : ℕ := 1184

/-- Length of the ML-KEM ciphertext. -/
def mlKemCiphertextLen : ℕ := 1088

/-- The label of the combiner, which stands last. -/
def xwingLabel : List UInt8 := [0x5c, 0x2e, 0x2f, 0x2f, 0x5e, 0x5c]

/-- The combiner. -/
def combiner (ssM ssX ctX pkX : Digest) : Digest :=
  k.sha3 (ssM.toList ++ ssX.toList ++ ctX.toList ++ pkX.toList ++ xwingLabel)

/-- Expanded private half. -/
structure Expanded where
  mlKem : k.mlKem.DecapsulationKey
  x25519 : Digest
  mlKemPublic : List.Vector UInt8 1184
  x25519Public : Digest

/-- Both pairs grow from the seed. -/
def expand (secret : Digest) : Except CryptoError (Expanded k) := do
  let expanded := (k.shake256 secret.toList 96).toList
  let seed ← okOr (toVector? 64 (expanded.take 64)) .badLength
  let x25519 ← okOr (toVector? 32 (expanded.drop 64)) .badLength
  let (mlKem, mlKemPublic) := k.mlKem.fromSeed seed
  .ok ⟨mlKem, x25519, mlKemPublic, k.x25519.publicKey x25519⟩

/-- Public half from the seed. -/
def publicKey (secret : Digest) : Except CryptoError (List UInt8) := do
  let expanded ← expand k secret
  .ok (expanded.mlKemPublic.toList ++ expanded.x25519Public.toList)

/-- Encapsulation with a given seed: the shared secret and the ciphertext. -/
def encapsulateDerand (publicKey : List UInt8) (seed : List.Vector UInt8 64) :
    Except CryptoError (Digest × List UInt8) := do
  refuseIf (publicKey.length ≠ publicKeyLen) .badLength
  let pkM ← okOr (toVector? 1184 (publicKey.take mlKemPublicLen)) .badLength
  let pkX ← okOr (toVector? 32 (publicKey.drop mlKemPublicLen)) .badLength
  let ekX ← okOr (toVector? 32 (seed.toList.drop 32)) .badLength
  let ctX := k.x25519.publicKey ekX
  let ssX := k.x25519.diffieHellman ekX pkX
  let m ← okOr (toVector? 32 (seed.toList.take 32)) .badLength
  let ekM ← okOr (k.mlKem.newFromSlice pkM) .badKey
  let (ctM, ssM) := k.mlKem.encapsulateDeterministic ekM m
  .ok (combiner k ssM ssX ctX pkX, ctM.toList ++ ctX.toList)

/-- Encapsulate to the recipient's public half. -/
def encapsulate {γ : Type} (publicKey : List UInt8) (rng : Rng γ) (g : γ) :
    Except CryptoError ((Digest × List UInt8) × γ) := do
  let (seed, g) := rng.fillBytes g 64
  let result ← encapsulateDerand k publicKey seed
  .ok (result, g)

/-- Decapsulation. A corrupted ciphertext yields another secret, and no refusal. -/
def decapsulate (secret : Digest) (ciphertext : List UInt8) : Except CryptoError Digest := do
  refuseIf (ciphertext.length ≠ ciphertextLen) .badLength
  let expanded ← expand k secret
  let ctM ← okOr (toVector? 1088 (ciphertext.take mlKemCiphertextLen)) .badLength
  let ctX ← okOr (toVector? 32 (ciphertext.drop mlKemCiphertextLen)) .badLength
  let ssM := k.mlKem.decapsulate expanded.mlKem ctM
  let ssX := k.x25519.diffieHellman expanded.x25519 ctX
  .ok (combiner k ssM ssX ctX expanded.x25519Public)

variable {k} {secret : Digest} {pk ct : List UInt8} {shared : Digest}

/-- A public half consists of the public keys of the two pairs. -/
theorem exists_of_publicKey (h : publicKey k secret = .ok pk) :
    ∃ seed x, expand k secret = .ok ⟨(k.mlKem.fromSeed seed).1, x, (k.mlKem.fromSeed seed).2,
        k.x25519.publicKey x⟩ ∧
      pk = (k.mlKem.fromSeed seed).2.toList ++ (k.x25519.publicKey x).toList := by
  obtain ⟨expanded, hexpand, hpk⟩ := Except.bind_eq_ok_iff.mp h
  have hparts := hexpand
  simp only [expand, Except.bind_eq_ok_iff, Except.okOr_eq_ok_iff, Except.ok.injEq] at hparts
  obtain ⟨seed, -, x, -, rfl⟩ := hparts
  exact ⟨seed, x, hexpand, (Except.ok.inj hpk).symm⟩

/-- **Decapsulation undoes encapsulation** for the holder of the public half. -/
theorem decapsulate_encapsulateDerand (hk : k.Lawful) {seed : List.Vector UInt8 64}
    (hpk : publicKey k secret = .ok pk) (h : encapsulateDerand k pk seed = .ok (shared, ct)) :
    decapsulate k secret ct = .ok shared := by
  obtain ⟨seed', x, hexpand, rfl⟩ := exists_of_publicKey hpk
  simp only [encapsulateDerand, mlKemPublicLen, take_toList_append, drop_toList_append,
    toVector?_toList, Except.okOr_some, Except.ok_bind, Except.bind_eq_ok_iff,
    Except.okOr_eq_ok_iff, Except.ok.injEq, Prod.mk.injEq] at h
  obtain ⟨-, -, ekX, -, m, -, ekM, hekM, rfl, rfl⟩ := h
  have hlen : ((k.mlKem.encapsulateDeterministic ekM m).1.toList ++
      (k.x25519.publicKey ekX).toList).length = ciphertextLen := by
    rw [List.length_append, List.Vector.toList_length, List.Vector.toList_length]
    rfl
  rw [decapsulate, Except.refuseIf_of_not (not_not.mpr hlen), Except.ok_bind, hexpand,
    Except.ok_bind, mlKemCiphertextLen, take_toList_append, drop_toList_append]
  simp only [toVector?_toList, Except.okOr_some, Except.ok_bind, hk.mlKem_decapsulate m hekM,
    hk.x25519_comm x ekX]

end Xwing

/-! ### The hardware hybrid -/

namespace MlkemP256

/-- Length of the public half. -/
def publicKeyLen : ℕ := 1249

/-- Length of the ciphertext. -/
def ciphertextLen : ℕ := 1153

/-- Length of the ML-KEM public key in it. -/
def mlKemPublicLen : ℕ := 1184

/-- Length of the ML-KEM ciphertext. -/
def mlKemCiphertextLen : ℕ := 1088

/-- Length of a point. -/
def p256PointLen : ℕ := 65

/-- Construction label. -/
def label : List UInt8 := utf8 "MLKEM768-P256"

/-- The combiner. -/
def combine (ssPq ssT : Digest) (ctT pkT : List UInt8) : Digest :=
  k.sha3 (ssPq.toList ++ ssT.toList ++ ctT ++ pkT ++ label)

/-- First valid scalar of the byte reserve, in pieces of 32 bytes. -/
def scalarFrom : List (List UInt8) → Except CryptoError k.p256.SecretKey
  | [] => .error .badKey
  | part :: parts => do
    let candidate ← okOr (toVector? 32 part) .badLength
    match k.p256.fromSlice candidate with
    | some secret => .ok secret
    | none => scalarFrom parts

/-- Composite public half from two independent halves. -/
def publicKeyFromParts (mlKemSeed : List.Vector UInt8 64) (p256Public : List UInt8) :
    Except CryptoError (List UInt8) := do
  refuseIf (p256Public.length ≠ p256PointLen) .badLength
  .ok ((k.mlKem.fromSeed mlKemSeed).2.toList ++ p256Public)

/-- The four candidate scalars of an encapsulation seed. -/
def scalarReserve (seed : List.Vector UInt8 160) : List (List UInt8) :=
  (List.range 4).map fun i ↦ (seed.toList.drop (32 + 32 * i)).take 32

/-- Encapsulation with a given seed: the shared secret and the ciphertext. -/
def encapsulateDerand (publicKey : List UInt8) (seed : List.Vector UInt8 160) :
    Except CryptoError (Digest × List UInt8) := do
  refuseIf (publicKey.length ≠ publicKeyLen) .badLength
  let pkPq ← okOr (toVector? 1184 (publicKey.take mlKemPublicLen)) .badLength
  let pkT := publicKey.drop mlKemPublicLen
  let ek ← okOr (k.mlKem.newFromSlice pkPq) .badKey
  let m ← okOr (toVector? 32 (seed.toList.take 32)) .badLength
  let (ctPq, ssPq) := k.mlKem.encapsulateDeterministic ek m
  let secret ← scalarFrom k (scalarReserve seed)
  let ephemeral := p256Agreement k secret
  let ssT ← ephemeral.agree pkT
  .ok (combine k ssPq ssT ephemeral.publicKey pkT, ctPq.toList ++ ephemeral.publicKey)

/-- Encapsulate to the recipient's public half. -/
def encapsulate {γ : Type} (publicKey : List UInt8) (rng : Rng γ) (g : γ) :
    Except CryptoError ((Digest × List UInt8) × γ) := do
  let (seed, g) := rng.fillBytes g 160
  let result ← encapsulateDerand k publicKey seed
  .ok (result, g)

/-- Decapsulate with both halves, the classical one behind a provider. -/
def decapsulateWith (mlKemSeed : List.Vector UInt8 64) (classical : KeyAgreement)
    (ciphertext : List UInt8) : Except CryptoError Digest := do
  refuseIf (ciphertext.length ≠ ciphertextLen) .badLength
  let ctPq ← okOr (toVector? 1088 (ciphertext.take mlKemCiphertextLen)) .badLength
  let ctT := ciphertext.drop mlKemCiphertextLen
  let ssPq := k.mlKem.decapsulate (k.mlKem.fromSeed mlKemSeed).1 ctPq
  let ssT ← classical.agree ctT
  .ok (combine k ssPq ssT ctT classical.publicKey)

variable {k} {mlKemSeed : List.Vector UInt8 64} {secret : k.p256.SecretKey} {pk ct : List UInt8}
  {shared : Digest}

/-- **Decapsulation undoes encapsulation** for the holder of both halves. -/
theorem decapsulateWith_encapsulateDerand (hk : k.Lawful) {seed : List.Vector UInt8 160}
    (hpk : publicKeyFromParts k mlKemSeed (k.p256.publicKey secret).toList = .ok pk)
    (h : encapsulateDerand k pk seed = .ok (shared, ct)) :
    decapsulateWith k mlKemSeed (p256Agreement k secret) ct = .ok shared := by
  obtain ⟨-, hpk⟩ := Except.check_bind_eq_ok_iff.mp hpk
  obtain rfl := Except.ok.inj hpk
  simp only [encapsulateDerand, mlKemPublicLen, take_toList_append, drop_toList_append,
    toVector?_toList, Except.okOr_some, Except.ok_bind, Except.bind_eq_ok_iff,
    Except.okOr_eq_ok_iff, Except.ok.injEq, Prod.mk.injEq] at h
  obtain ⟨-, -, ek, hek, m, -, ephemeral, -, ssT, hssT, rfl, rfl⟩ := h
  -- the ephemeral side and the holder reach the same classical secret
  obtain ⟨ssT', hephemeral, hholder⟩ := agree_comm hk ephemeral secret
  obtain rfl := Except.ok.inj (hssT.symm.trans hephemeral)
  have hlen : ((k.mlKem.encapsulateDeterministic ek m).1.toList ++
      (p256Agreement k ephemeral).publicKey).length = ciphertextLen := by
    rw [List.length_append, List.Vector.toList_length, p256Agreement, List.Vector.toList_length]
    rfl
  rw [decapsulateWith, Except.refuseIf_of_not (not_not.mpr hlen), Except.ok_bind,
    mlKemCiphertextLen, take_toList_append, drop_toList_append]
  simp only [toVector?_toList, Except.okOr_some, Except.ok_bind, hk.mlKem_decapsulate m hek]
  rw [show (p256Agreement k ephemeral).publicKey = (k.p256.publicKey ephemeral).toList from rfl,
    hholder]
  rfl

end MlkemP256

end OpenCrate.Crypto
