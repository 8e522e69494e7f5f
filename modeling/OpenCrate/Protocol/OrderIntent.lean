import OpenCrate.Protocol.OrderRoundTrip

/-!
# The intent of an order

`intent_digest` of `order`: coauthors who sign the same command at different times and with different keys
are to be counted together, so the command is known by the hash of its body without the time and without
the key. The body is written by the encoder of orders, and that checks its order: an order that needs a
key, without it, is none. So the digest is defined exactly on the orders that name no key
(`intentDigest_isOk_iff`). There it is faithful: the bytes of an order determine its normal form
(`encode_eq_iff_normal_eq`).
-/

namespace OpenCrate.Protocol.Order

open OpenCrate.Format OpenCrate.Crypto
open Except (refuseIf okOr)

/-- The order without the time of its issue and without the key of its signer. -/
def intent (order : Order) : Order :=
  { order with at_ := 0, signerKey := none }

/-- Hash of the intent of an order. -/
def intentDigest (sha : Sha2) (order : Order) : Except FormatError Digest := do
  let body ← order.intent.encode
  .ok (sha.sha256 body)

variable {order order' : Order}

/-! ### Normal forms -/

/-- The bytes of an order are those of its normal form. -/
theorem encode_normal {bytes : List UInt8} (h : order.encode = .ok bytes) :
    order.normal.encode = .ok bytes := by
  obtain ⟨hcheck, bequests, hbequests, rule, hrule, henc⟩ := encode_eq_ok_iff.1 h
  refine encode_eq_ok_iff.2 ⟨order.check_normal.trans hcheck, bequests, hbequests, rule, ?_, henc⟩
  rw [normal]
  cases horder : order.rule with
  | none =>
    rw [horder] at hrule
    exact hrule
  | some r =>
    rw [horder] at hrule
    obtain ⟨written, hwritten, rfl⟩ := Except.map_eq_ok_iff.1 hrule
    exact Except.map_eq_ok_iff.2 ⟨written, AttributeRule.encode_normal hwritten, rfl⟩

/-- **The bytes of an order determine it** up to its normal form, and nothing else. -/
theorem encode_eq_iff_normal_eq {bytes bytes' : List UInt8} (h : order.encode = .ok bytes)
    (h' : order'.encode = .ok bytes') : bytes = bytes' ↔ order.normal = order'.normal := by
  constructor
  · rintro rfl
    exact Except.ok.inj ((decode_encode h).symm.trans (decode_encode h'))
  · intro hnormal
    have hbytes := encode_normal h
    rw [hnormal, encode_normal h'] at hbytes
    exact (Except.ok.inj hbytes).symm

/-! ### Where the intent is an order -/

/-- An order that needs the key of its signer is none without it. -/
theorem signerKey_eq_none_of_fits_intent (h : order.Fits) (hintent : order.intent.Fits) :
    order.signerKey = none := by
  cases hkey : order.signerKey with
  | none => rfl
  | some key =>
    have hneeded := h.signerKey.1 (by rw [hkey]; rfl)
    have hsome : order.intent.signerKey.isSome := hintent.signerKey.2 hneeded
    exact absurd hsome Bool.false_ne_true

/-- Without a key there is only the time to forget, and every time is written alike. -/
theorem exists_encode_intent {bytes : List UInt8} (h : order.encode = .ok bytes)
    (hkey : order.signerKey = none) : ∃ bytes', order.intent.encode = .ok bytes' := by
  obtain ⟨hcheck, bequests, hbequests, rule, hrule, henc⟩ := encode_eq_ok_iff.1 h
  have hsame : order.intent = { order with at_ := 0 } := by
    rw [intent, ← hkey]
  have hfits := henc.fits
  have hvalues : ∀ p ∈ order.intent.contents bequests rule, p.2.length < 2 ^ 32 := by
    rw [hsame]
    simp only [contents, commonContents, List.forall_mem_append, List.forall_mem_cons] at hfits ⊢
    exact ⟨⟨hfits.1.1, hfits.1.2.1, hfits.1.2.2.1, hfits.1.2.2.2.1, hfits.1.2.2.2.2⟩, hfits.2⟩
  obtain ⟨bytes', hbytes'⟩ := Encodes.exists_iff.2 ⟨tags_contents order.intent bequests rule, hvalues⟩
  refine ⟨bytes', encode_eq_ok_iff.2 ⟨?_, bequests, hbequests, rule, hrule, hbytes'⟩⟩
  rw [hsame]
  exact hcheck

/-- **Where the digest is defined.** On the orders that name no key of a signer. -/
theorem intentDigest_isOk_iff (sha : Sha2) {bytes : List UInt8} (h : order.encode = .ok bytes) :
    (∃ digest, order.intentDigest sha = .ok digest) ↔ order.signerKey = none := by
  constructor
  · rintro ⟨digest, hdigest⟩
    obtain ⟨body, hbody, -⟩ := Except.bind_eq_ok_iff.1 hdigest
    exact signerKey_eq_none_of_fits_intent (check_eq_ok_iff.1 (encode_eq_ok_iff.1 h).1)
      (check_eq_ok_iff.1 (encode_eq_ok_iff.1 hbody).1)
  · intro hkey
    obtain ⟨body, hbody⟩ := exists_encode_intent h hkey
    exact ⟨sha.sha256 body, Except.bind_eq_ok_iff.2 ⟨body, hbody, rfl⟩⟩

/-- **What the digest of an intent is good for.** It is defined exactly on the orders that name no key of
a signer. Two orders have digests, and these are equal exactly for orders that differ in the time of their
issue at most, unless two different bodies have one hash, if and only if neither order names a key. -/
theorem intentDigest_faithful_iff (sha : Sha2) {bytes bytes' : List UInt8} (h : order.encode = .ok bytes)
    (h' : order'.encode = .ok bytes') :
    ((∃ digest, order.intentDigest sha = .ok digest) ↔ order.signerKey = none) ∧
    ((∃ digest digest', order.intentDigest sha = .ok digest ∧ order'.intentDigest sha = .ok digest' ∧
      (order.intent.normal = order'.intent.normal → digest = digest') ∧
      (digest = digest' → order.intent.normal = order'.intent.normal ∨
        ∃ body body', order.intent.encode = .ok body ∧ order'.intent.encode = .ok body' ∧
          body ≠ body' ∧ sha.sha256 body = sha.sha256 body')) ↔
      order.signerKey = none ∧ order'.signerKey = none) := by
  refine ⟨intentDigest_isOk_iff sha h, ?_, ?_⟩
  · intro ⟨digest, digest', hdigest, hdigest', _⟩
    exact ⟨(intentDigest_isOk_iff sha h).1 ⟨digest, hdigest⟩,
      (intentDigest_isOk_iff sha h').1 ⟨digest', hdigest'⟩⟩
  · intro ⟨hkey, hkey'⟩
    obtain ⟨body, hbody⟩ := exists_encode_intent h hkey
    obtain ⟨body', hbody'⟩ := exists_encode_intent h' hkey'
    have hsame := encode_eq_iff_normal_eq hbody hbody'
    refine ⟨sha.sha256 body, sha.sha256 body', Except.bind_eq_ok_iff.2 ⟨body, hbody, rfl⟩,
      Except.bind_eq_ok_iff.2 ⟨body', hbody', rfl⟩, fun hnormal ↦ ?_, fun hdigest ↦ ?_⟩
    · rw [hsame.2 hnormal]
    · by_cases hbodies : body = body'
      · exact .inl (hsame.1 hbodies)
      · exact .inr ⟨body, body', hbody, hbody', hbodies, hdigest⟩

/-! ### Samples -/

/-- An order to revoke a file. -/
def sampleRevoke : Order where
  fileId := List.Vector.replicate 16 7
  kind := .revoke
  at_ := 100
  maxDevices := none
  maxGrants := none
  keys := none
  threshold := none
  deviceFpr := none
  approve := none
  silenceSeconds := none
  heirMode := none
  bequests := none
  signerKey := none
  proposalTtl := none
  frozen := none
  oldDevices := none
  newDevices := none
  rule := none
  authorityKey := none
  grantId := none

/-- An order to freeze all files of a key. -/
def sampleFreeze : Order :=
  { sampleRevoke with
    fileId := noFile
    kind := .freeze
    signerKey := some (List.Vector.replicate 32 9)
    frozen := some true }

/-- SHA-256, as far as the samples ask for it. -/
def intentSha : Sha2 := ⟨fun _ ↦ .replicate 32 5, fun _ _ ↦ .replicate 32 0, fun _ _ _ n ↦ .replicate n 0⟩

/-- The bytes of an order that can be written. -/
def written (order : Order) : List UInt8 := order.encode.toOption.getD []

/-- The sample order is written. -/
theorem encode_sampleFreeze : sampleFreeze.encode = .ok (written sampleFreeze) := by decide +kernel

/-- A freeze is written, and has no digest: without its key it is not an order. -/
theorem freeze_without_digest :
    sampleFreeze.encode = .ok (written sampleFreeze) ∧
      sampleFreeze.intentDigest intentSha = .error (.missingField Tag.signerKey) :=
  ⟨encode_sampleFreeze, by decide +kernel⟩

/-- A freeze and a revocation are written, and one of them names a key. -/
theorem intentDigest_faithful_iff_sampleFreeze :
    sampleRevoke.encode = .ok (written sampleRevoke) ∧
      sampleFreeze.encode = .ok (written sampleFreeze) ∧
      (∃ digest, sampleRevoke.intentDigest intentSha = .ok digest) ∧
      ¬∃ digest, sampleFreeze.intentDigest intentSha = .ok digest := by
  have hrevoke : sampleRevoke.encode = .ok (written sampleRevoke) := by decide +kernel
  refine ⟨hrevoke, encode_sampleFreeze, ?_, ?_⟩
  · exact (intentDigest_faithful_iff intentSha hrevoke encode_sampleFreeze).1.2 rfl
  · exact fun h ↦ absurd ((intentDigest_faithful_iff intentSha encode_sampleFreeze hrevoke).1.1 h)
      (by decide)

end OpenCrate.Protocol.Order
