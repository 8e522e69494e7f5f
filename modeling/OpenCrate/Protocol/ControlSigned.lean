import OpenCrate.Protocol.ControlCodec

/-!
# Signed control documents

What is signed is opened again, with two exceptions that only the reader knows: an address must not be
repeated, and a whole document must not be too long. Nothing else can come between a writer of
`control` and its reader (`signed_iff_opened`).
-/

namespace OpenCrate.Protocol

open OpenCrate.Format OpenCrate.Crypto
open Except (refuseIf okOr)

namespace Control

/-! ### Envelopes -/

/-- A signature in an envelope: the key and the signature. -/
def signatureBytes (s : Digest × Signature) : List UInt8 := s.1.toList ++ s.2.toList

/-- As many signatures are cut off as the count says. -/
theorem splitSignatures_eq_ok_iff {count : ℕ} {bytes body : List UInt8}
    {signatures : List (Digest × Signature)} :
    splitSignatures count bytes = .ok (signatures, body) ↔
      signatures.length = count ∧ bytes = signatures.flatMap signatureBytes ++ body := by
  -- by induction on the count: a key, a signature, and the rest
  induction count generalizing bytes signatures with
  | zero =>
    rw [splitSignatures, Except.ok.injEq, Prod.mk.injEq, List.length_eq_zero_iff]
    constructor
    · rintro ⟨rfl, rfl⟩
      exact ⟨rfl, rfl⟩
    · rintro ⟨rfl, rfl⟩
      exact ⟨rfl, rfl⟩
  | succ count ih =>
    simp only [splitSignatures, Except.bind_eq_ok_iff, Except.okOr_eq_ok_iff]
    constructor
    · rintro ⟨⟨keyPart, tail⟩, hkey, ⟨sigPart, tail'⟩, hsig, key, hkeyV, sig, hsigV, ⟨more, rest⟩, hmore,
        h⟩
      obtain ⟨rfl, rfl⟩ := Prod.mk.inj (Except.ok.inj h)
      obtain ⟨-, rfl⟩ := splitAtChecked_eq_some_iff.mp hkey
      obtain ⟨-, rfl⟩ := splitAtChecked_eq_some_iff.mp hsig
      obtain rfl := toVector?_eq_some_iff.mp hkeyV
      obtain rfl := toVector?_eq_some_iff.mp hsigV
      obtain ⟨rfl, rfl⟩ := ih.mp hmore
      refine ⟨rfl, ?_⟩
      rw [List.flatMap_cons, signatureBytes, List.append_assoc, List.append_assoc]
    · rintro ⟨hlen, rfl⟩
      rcases signatures with - | ⟨⟨key, sig⟩, signatures⟩
      · cases hlen
      · rw [List.flatMap_cons, signatureBytes, List.append_assoc, List.append_assoc]
        exact ⟨_, splitAtChecked_eq_some_iff.mpr ⟨key.toList_length, rfl⟩, _,
          splitAtChecked_eq_some_iff.mpr ⟨sig.toList_length, rfl⟩, key, toVector?_eq_some_iff.mpr rfl,
          sig, toVector?_eq_some_iff.mpr rfl, (signatures, body),
          ih.mpr ⟨Nat.succ.inj hlen, rfl⟩, rfl⟩

/-- **What an envelope is.** The number of signatures, the signatures by ascending keys, and the body,
all within the limit. -/
theorem splitRequest_eq_ok_iff {bytes body : List UInt8} {signatures : List (Digest × Signature)} :
    splitRequest bytes = .ok (signatures, body) ↔
      bytes = UInt8.ofNat signatures.length :: (signatures.flatMap signatureBytes ++ body) ∧
        bytes.length ≤ maxDocumentLen ∧ 1 ≤ signatures.length ∧ signatures.length ≤ maxSigners ∧
        signatures.IsChain fun a b ↦ keyLt a.1 b.1 := by
  simp only [splitRequest, Except.bind_eq_ok_iff, Except.refuseIf_eq_ok_iff, not_lt, not_not, not_or,
    Except.okOr_eq_ok_iff]
  constructor
  · rintro ⟨⟨⟩, hlen, count, hcount, ⟨⟩, ⟨hne, hmax⟩, ⟨signatures', body'⟩, hsplit, ⟨⟩, hchain, h⟩
    obtain ⟨rfl, rfl⟩ := Prod.mk.inj (Except.ok.inj h)
    rcases bytes with - | ⟨b, rest⟩
    · cases hcount
    · obtain rfl := Option.some.inj hcount
      obtain ⟨hsigs, rfl⟩ := splitSignatures_eq_ok_iff.mp hsplit
      refine ⟨by rw [hsigs, UInt8.ofNat_toNat], hlen, ?_, hsigs ▸ hmax, hchain⟩
      rw [hsigs, Nat.one_le_iff_ne_zero]
      exact fun hzero ↦ hne (UInt8.toNat_inj.mp hzero)
  · rintro ⟨rfl, hlen, hpos, hmax, hchain⟩
    have hnat : (UInt8.ofNat signatures.length).toNat = signatures.length := by
      rw [maxSigners] at hmax
      exact UInt8.toNat_ofNat_of_lt' (by rw [UInt8.size]; omega)
    refine ⟨(), hlen, _, rfl, (), ⟨fun hzero ↦ ?_, hnat.trans_le hmax⟩, (signatures, body),
      splitSignatures_eq_ok_iff.mpr ⟨hnat.symm, rfl⟩, (), hchain, rfl⟩
    rw [hzero] at hnat
    exact absurd hnat.symm (Nat.one_le_iff_ne_zero.mp hpos)

/-- The envelope of a single signature. -/
theorem assemble_singleton (body : List UInt8) (s : Digest × Signature) :
    assemble body [s] = .ok (1 :: (signatureBytes s ++ body)) := by
  simp [assemble, Except.refuseIf, maxSigners, signatureBytes]

/-- All of them are checked against the same body. -/
theorem verifyAll_eq_ok_iff {ed : Ed25519} {label : Label} {body : List UInt8}
    {signatures : List (Digest × Signature)} :
    verifyAll ed label body signatures = .ok () ↔
      ∀ s ∈ signatures, verify ed s.1 (transcript label body) s.2 = .ok () := by
  simp only [verifyAll, Except.forM_eq_ok_iff, Except.mapError_eq_ok_iff]

/-! ### Opened documents -/

section

variable {ed : Ed25519}

/-- **A binding is read from what it carries**: the known records are those that it writes. -/
theorem Binding.peek_eq_ok_iff {bytes : List UInt8} {binding : Binding} :
    peek bytes = .ok binding ↔
      ∃ sig body written, splitSigned bytes = .ok (sig, body) ∧ Carries tags body written ∧
        binding.urls.Nodup ∧ binding.body = .ok written := by
  rw [peek, Except.bind_eq_ok_iff]
  simp only [Prod.exists, decodeCanonical_eq_ok_iff]
  constructor
  · rintro ⟨sig, body, hsplit, written, h⟩
    exact ⟨sig, body, written, hsplit, h⟩
  · rintro ⟨sig, body, written, hsplit, h⟩
    exact ⟨sig, body, hsplit, written, h⟩

/-- **What a binding is opened from.** The signature is that of the key that the binding names. -/
theorem Binding.open_eq_ok_iff {bytes : List UInt8} {anchor : Digest} {binding : Binding} :
    open_ ed bytes anchor = .ok binding ↔
      (∃ sig body, splitSigned bytes = .ok (sig, body) ∧
        verify ed anchor (transcript .authorityBinding body) sig = .ok ()) ∧
      peek bytes = .ok binding ∧ binding.leasePublic = anchor := by
  simp only [open_, Except.bind_eq_ok_iff, Except.mapError_eq_ok_iff, Except.refuseIf_eq_ok_iff,
    not_not]
  constructor
  · rintro ⟨⟨sig, body⟩, hsplit, ⟨⟩, hvalid, binding', hpeek, ⟨⟩, hkey, h⟩
    obtain rfl := Except.ok.inj h
    exact ⟨⟨sig, body, hsplit, hvalid⟩, hpeek, hkey⟩
  · rintro ⟨⟨sig, body, hsplit, hvalid⟩, hpeek, hkey⟩
    exact ⟨(sig, body), hsplit, (), hvalid, binding, hpeek, (), hkey, rfl⟩

/-- **What opens a request**: signatures over its body, one for each key, and a body that is read. -/
theorem openRequest_eq_ok_iff {sha : Sha2} {bytes : List UInt8} {opened : SignedRequest} :
    openRequest sha ed bytes = .ok opened ↔
      ∃ signatures body, splitRequest bytes = .ok (signatures, body) ∧
        (∀ s ∈ signatures, verify ed s.1 (transcript .controlRequest body) s.2 = .ok ()) ∧
        ControlRequest.decodeBody body = .ok opened.request ∧ opened.bodyHash = sha.sha256 body ∧
        opened.signers = signatures.map Prod.fst := by
  simp only [openRequest, Except.bind_eq_ok_iff]
  constructor
  · rintro ⟨⟨signatures, body⟩, hsplit, ⟨⟩, hvalid, request, hdecode, h⟩
    obtain rfl := Except.ok.inj h
    exact ⟨signatures, body, hsplit, verifyAll_eq_ok_iff.mp hvalid, hdecode, rfl, rfl⟩
  · rintro ⟨signatures, body, hsplit, hvalid, hdecode, hhash, hsigners⟩
    refine ⟨(signatures, body), hsplit, (), verifyAll_eq_ok_iff.mpr hvalid, _, hdecode, ?_⟩
    rw [← hhash, ← hsigners]

/-- **What a transfer is opened from.** An envelope whose signatures all cover the body. -/
theorem openTransfer_eq_ok_iff {bytes : List UInt8} {transfer : Transfer} {signers : List Digest} :
    openTransfer ed bytes = .ok (transfer, signers) ↔
      ∃ signatures body, splitRequest bytes = .ok (signatures, body) ∧
        (∀ s ∈ signatures, verify ed s.1 (transcript .authorityTransfer body) s.2 = .ok ()) ∧
        Transfer.decodeBody body = .ok transfer ∧ signers = signatures.map Prod.fst := by
  simp only [openTransfer, Except.bind_eq_ok_iff]
  constructor
  · rintro ⟨⟨signatures, body⟩, hsplit, ⟨⟩, hvalid, transfer', hdecode, h⟩
    obtain ⟨rfl, rfl⟩ := Prod.mk.inj (Except.ok.inj h)
    exact ⟨signatures, body, hsplit, verifyAll_eq_ok_iff.mp hvalid, hdecode, rfl⟩
  · rintro ⟨signatures, body, hsplit, hvalid, hdecode, rfl⟩
    exact ⟨(signatures, body), hsplit, (), verifyAll_eq_ok_iff.mpr hvalid, transfer, hdecode, rfl⟩

/-! ### What is signed is opened -/

/-- A body of a binding is short. -/
theorem Binding.length_body_le {binding : Binding} {body : List UInt8}
    (h : binding.body = .ok body) : body.length ≤ 4096 := by
  obtain ⟨hcheck, urls, hurls, pins, hpins, roster, hroster, henc⟩ := body_eq_ok_iff.mp h
  have htenant := length_le_of_checkTenant (Except.check_bind_eq_ok_iff.mp hcheck).1
  have hurls := length_le_of_encodeUrls hurls
  have hpins := length_le_of_encodeKeys hpins
  have hroster := length_le_of_encodeKeys hroster
  rw [maxTenant] at htenant
  rw [maxPins] at hpins
  rw [maxRoster] at hroster
  rw [henc.length_eq]
  simp only [contents, encodedLength_cons, encodedLength_nil, fieldPrefixLen, length_toLeBytes,
    LeInt.width_uint64, LeInt.width_int64, List.Vector.toList_length, List.length_singleton,
    Nat.reduceAdd]
  omega

/-- A signature and a short body are split again. -/
theorem splitSigned_append {sig : Signature} {body : List UInt8} (h : body.length ≤ 4096) :
    splitSigned (sig.toList ++ body) = .ok (sig, body) := by
  refine splitSigned_eq_ok_iff.mpr ⟨rfl, ?_⟩
  rw [List.length_append, List.Vector.toList_length, maxDocumentLen, Crypto.signatureLen]
  omega

variable {signer : Signer} (hlawful : signer.Lawful ed)

include hlawful in
/-- A signed binding is opened again exactly if no address is repeated. -/
theorem Binding.open_sign_iff {binding : Binding} {bytes : List UInt8}
    (h : binding.sign signer = .ok bytes) :
    open_ ed bytes signer.publicKey = .ok binding ↔ binding.urls.Nodup := by
  simp only [sign, Except.bind_eq_ok_iff, Except.refuseIf_eq_ok_iff, not_not,
    Except.mapError_eq_ok_iff] at h
  obtain ⟨⟨⟩, hkey, body, hbody, sig, hsig, hbytes⟩ := h
  obtain rfl := Except.ok.inj hbytes
  have hsplit : splitSigned (sig.toList ++ body) = .ok (sig, body) :=
    splitSigned_append (length_body_le hbody)
  obtain ⟨-, _, -, _, -, _, -, henc⟩ := body_eq_ok_iff.mp hbody
  rw [open_eq_ok_iff, peek_eq_ok_iff]
  constructor
  · rintro ⟨-, ⟨_, _, _, -, -, hnodup, -⟩, -⟩
    exact hnodup
  · intro hnodup
    exact ⟨⟨sig, body, hsplit, hlawful hsig⟩,
      ⟨sig, body, body, hsplit, .refl henc mem_tags_of_mem_contents, hnodup, hbody⟩, hkey.symm⟩

/-- Every body has a bounded length, so that it fits into a document with its signatures. -/
theorem Receipt.length_body_le {receipt : Receipt} {body : List UInt8}
    (h : receipt.body = .ok body) : body.length ≤ 4096 := by
  obtain ⟨hreason, henc⟩ := body_eq_ok_iff.mp h
  have hreason := length_le_of_checkReason hreason
  rw [henc.length_eq]
  simp only [contents, encodedLength_cons, encodedLength_nil, fieldPrefixLen, length_toLeBytes,
    LeInt.width_uint64, LeInt.width_int64, List.Vector.toList_length, List.length_singleton]
  omega

include hlawful in
/-- A signed receipt is opened again. -/
theorem Receipt.open_sign {receipt : Receipt} {bytes : List UInt8}
    (h : receipt.sign signer = .ok bytes) : open_ ed bytes signer.publicKey = .ok receipt := by
  simp only [sign, Except.bind_eq_ok_iff, Except.mapError_eq_ok_iff] at h
  obtain ⟨body, hbody, sig, hsig, hbytes⟩ := h
  obtain rfl := Except.ok.inj hbytes
  have hdecode : decodeBody body = .ok receipt := decodeBody_eq_ok_iff.mpr
    ⟨body, .refl (body_eq_ok_iff.mp hbody).2 mem_tags_of_mem_contents, hbody⟩
  rw [open_, splitSigned_append (length_body_le hbody)]
  show ((verify ed signer.publicKey _ sig).mapError _ >>= fun _ ↦ decodeBody body) = _
  rw [hlawful hsig, Except.ok_mapError, Except.ok_bind, hdecode]

/-- The envelope of one signature and a body. -/
theorem splitRequest_singleton_eq_ok_iff {s : Digest × Signature} {body : List UInt8}
    {signatures : List (Digest × Signature)} {body' : List UInt8} :
    splitRequest (1 :: (signatureBytes s ++ body)) = .ok (signatures, body') ↔
      signatures = [s] ∧ body' = body ∧ 97 + body.length ≤ maxDocumentLen := by
  have hlen : (1 :: (signatureBytes s ++ body)).length = 97 + body.length := by
    rw [List.length_cons, List.length_append, signatureBytes, List.length_append,
      List.Vector.toList_length, List.Vector.toList_length, Crypto.signatureLen]
    omega
  have hone : 97 + body.length ≤ maxDocumentLen →
      splitRequest (1 :: (signatureBytes s ++ body)) = .ok ([s], body) := by
    intro hmax
    refine splitRequest_eq_ok_iff.mpr ⟨?_, hlen ▸ hmax, le_rfl, (by decide : 1 ≤ maxSigners),
      List.isChain_singleton _⟩
    rw [List.flatMap_singleton]
    rfl
  constructor
  · intro h
    have hmax := (splitRequest_eq_ok_iff.mp h).2.1
    rw [hlen] at hmax
    obtain ⟨rfl, rfl⟩ := Prod.mk.inj (Except.ok.inj (h.symm.trans (hone hmax)))
    exact ⟨rfl, rfl, hmax⟩
  · rintro ⟨rfl, rfl, hmax⟩
    exact hone hmax

theorem Payload.length_encode_le {payload : Payload} {bytes : List UInt8}
    (h : payload.encode = .ok bytes) : bytes.length ≤ 2400 := by
  obtain ⟨l, hl, henc⟩ := encode_eq_ok_iff.mp h
  rw [henc.length_eq]
  cases payload with
  | setEndpoints urls pins =>
    simp only [contents, Except.bind_eq_ok_iff, Except.ok.injEq] at hl
    obtain ⟨urls', hurls, pins', hpins, rfl⟩ := hl
    have hurls := length_le_of_encodeUrls hurls
    have hpins := length_le_of_encodeKeys hpins
    rw [maxPins] at hpins
    simp only [encodedLength_cons, encodedLength_nil, fieldPrefixLen]
    omega
  | setRoster keys threshold =>
    simp only [contents, Except.bind_eq_ok_iff, Except.ok.injEq] at hl
    obtain ⟨keys', hkeys, rfl⟩ := hl
    have hkeys := length_le_of_encodeKeys hkeys
    rw [maxRoster] at hkeys
    simp only [encodedLength_cons, encodedLength_nil, fieldPrefixLen, List.length_singleton]
    omega
  | decommission status reason =>
    simp only [contents, Except.check_bind_eq_ok_iff, Except.ok.injEq] at hl
    obtain ⟨-, hreason, rfl⟩ := hl
    have hreason := length_le_of_checkReason hreason
    simp only [encodedLength_cons, encodedLength_nil, fieldPrefixLen, List.length_singleton]
    omega
  | setDurability | setRecovery | addAuthor | removeAuthor =>
    obtain rfl := Except.ok.inj hl
    simp [fieldPrefixLen]

theorem ControlRequest.length_body_le {request : ControlRequest} {body : List UInt8}
    (h : request.body = .ok body) : body.length ≤ 4096 := by
  obtain ⟨htenant, -, -, -, payload, hpayload, henc⟩ := body_eq_ok_iff.mp h
  have htenant := length_le_of_checkTenant htenant
  have hpayload := Payload.length_encode_le hpayload
  rw [maxTenant] at htenant
  rw [henc.length_eq]
  simp only [contents, encodedLength_cons, encodedLength_nil, fieldPrefixLen, length_toLeBytes,
    LeInt.width_uint64, LeInt.width_int64, List.Vector.toList_length, List.length_singleton]
  omega

include hlawful in
/-- A signed request is opened again exactly if no address is repeated. -/
theorem ControlRequest.open_sign_iff (sha : Sha2) {request : ControlRequest} {bytes : List UInt8}
    (h : request.sign signer = .ok bytes) :
    (openRequest sha ed bytes).map SignedRequest.request = .ok request ↔
      request.payload.NodupUrls := by
  simp only [sign, Except.bind_eq_ok_iff, Except.mapError_eq_ok_iff, assemble_singleton] at h
  obtain ⟨body, hbody, sig, hsig, hbytes⟩ := h
  obtain rfl := Except.ok.inj hbytes
  simp only [Except.map_eq_ok_iff, openRequest_eq_ok_iff, splitRequest_singleton_eq_ok_iff,
    decodeBody_eq_ok_iff]
  constructor
  · rintro ⟨opened, ⟨_, _, -, -, ⟨_, -, hnodup, -⟩, -⟩, rfl⟩
    exact hnodup
  · intro hnodup
    obtain ⟨-, -, -, -, payload, -, henc⟩ := body_eq_ok_iff.mp hbody
    have hlen := length_body_le hbody
    refine ⟨⟨request, sha.sha256 body, [signer.publicKey]⟩, ⟨_, _, ⟨rfl, rfl, ?_⟩, ?_,
      ⟨body, .refl henc mem_tags_of_mem_contents, hnodup, hbody⟩, rfl, rfl⟩, rfl⟩
    · rw [maxDocumentLen]
      omega
    · intro s hs
      obtain rfl := List.mem_singleton.mp hs
      exact hlawful hsig

/-- The longest binding that a transfer with one signature can carry. -/
def maxTransferredBinding : ℕ := 65289

theorem Transfer.length_body {transfer : Transfer} {body : List UInt8}
    (h : transfer.body = .ok body) : body.length = 150 + transfer.binding.length := by
  rw [(body_eq_ok_iff.mp h).2.length_eq]
  simp only [contents, encodedLength_cons, encodedLength_nil, fieldPrefixLen, length_toLeBytes,
    LeInt.width_uint64, LeInt.width_int64, List.Vector.toList_length, List.length_singleton]
  omega

include hlawful in
/-- A signed transfer is opened again exactly if its binding is not too long. -/
theorem Transfer.open_sign_iff {transfer : Transfer} {bytes : List UInt8}
    (h : transfer.sign signer = .ok bytes) :
    (openTransfer ed bytes).map Prod.fst = .ok transfer ↔
      transfer.binding.length ≤ maxTransferredBinding := by
  simp only [sign, Except.bind_eq_ok_iff, Except.mapError_eq_ok_iff, assemble_singleton] at h
  obtain ⟨body, hbody, sig, hsig, hbytes⟩ := h
  obtain rfl := Except.ok.inj hbytes
  have hlen := length_body hbody
  simp only [Except.map_eq_ok_iff, Prod.exists, openTransfer_eq_ok_iff,
    splitRequest_singleton_eq_ok_iff, decodeBody_eq_ok_iff]
  constructor
  · rintro ⟨_, _, ⟨_, _, ⟨-, rfl, hmax⟩, -⟩, rfl⟩
    rw [maxDocumentLen] at hmax
    rw [maxTransferredBinding]
    omega
  · intro hbinding
    rw [maxTransferredBinding] at hbinding
    refine ⟨transfer, _, ⟨_, _, ⟨rfl, rfl, ?_⟩, ?_,
      ⟨body, .refl (body_eq_ok_iff.mp hbody).2 mem_tags_of_mem_contents, hbody⟩, rfl⟩, rfl⟩
    · rw [maxDocumentLen]
      omega
    · intro s hs
      obtain rfl := List.mem_singleton.mp hs
      exact hlawful hsig

end

/-- **What is signed is opened as it is**, if and only if no address is repeated, in a binding or in an
order for new addresses, and a transfer leaves room for its envelope. -/
theorem signed_iff_opened (sha : Sha2) (ed : Ed25519) (signer : Signer) (hlawful : signer.Lawful ed) :
    (∀ (binding : Binding) bytes, binding.sign signer = .ok bytes →
      (Binding.open_ ed bytes signer.publicKey = .ok binding ↔ binding.urls.Nodup)) ∧
    (∀ (request : ControlRequest) bytes, request.sign signer = .ok bytes →
      ((openRequest sha ed bytes).map SignedRequest.request = .ok request ↔
        request.payload.NodupUrls)) ∧
    (∀ (receipt : Receipt) bytes, receipt.sign signer = .ok bytes →
      Receipt.open_ ed bytes signer.publicKey = .ok receipt) ∧
    (∀ (transfer : Transfer) bytes, transfer.sign signer = .ok bytes →
      ((openTransfer ed bytes).map Prod.fst = .ok transfer ↔
        transfer.binding.length ≤ maxTransferredBinding)) :=
  ⟨fun _ _ h ↦ Binding.open_sign_iff hlawful h, fun _ _ h ↦ ControlRequest.open_sign_iff hlawful sha h,
    fun _ _ h ↦ Receipt.open_sign hlawful h, fun _ _ h ↦ Transfer.open_sign_iff hlawful h⟩

/-! ### Samples -/

/-- A signer as far as some messages go that it has signed. -/
def recordedSigner (key : Digest) (signed : List (List UInt8 × Signature)) : Signer where
  publicKey := key
  sign t := okOr (signed.lookup t.asBytes) .badSignature

instance : LawfulBEq (Digest × List UInt8 × Signature) := inferInstance

/-- Ed25519 as far as some signatures go. -/
def recordedEd25519 (signed : List (Digest × List UInt8 × Signature)) : Ed25519 where
  VerifyingKey := Digest
  fromBytes := some
  verifyStrict key message signature := decide ((key, message, signature) ∈ signed)

/-- What was recorded is accepted. -/
theorem verify_recordedEd25519 {signed : List (Digest × List UInt8 × Signature)} {key : Digest}
    {t : Transcript} {signature : Signature} (h : (key, t.asBytes, signature) ∈ signed) :
    verify (recordedEd25519 signed) key t signature = .ok () :=
  (verify_eq_ok_iff _).mpr ⟨key, rfl, decide_eq_true h⟩

/-- A signer that gives recorded signatures is lawful for them. -/
theorem lawful_recordedSigner {key : Digest} {signed : List (List UInt8 × Signature)}
    {all : List (Digest × List UInt8 × Signature)} (h : ∀ m ∈ signed, (key, m) ∈ all) :
    (recordedSigner key signed).Lawful (recordedEd25519 all) := by
  intro t signature hsign
  obtain ⟨before, after, rfl, -⟩ := List.lookup_eq_some_iff.mp (Except.okOr_eq_ok_iff.mp hsign)
  exact verify_recordedEd25519 (h _ (List.mem_append_right _ List.mem_cons_self))

/-- The lease key of the sample server. -/
def sampleLease : Digest :=
  ⟨[0xb5, 0x33, 0xd8, 0xad, 0x9f, 0xcf, 0xbd, 0xde, 0x0b, 0x48, 0x1c, 0x1b, 0x33, 0x4d, 0xdc,
    0x3c, 0x53, 0x41, 0x2f, 0xd6, 0x14, 0x56, 0x4e, 0x7e, 0x5a, 0xfd, 0x02, 0x03, 0x68, 0xd3,
    0x82, 0xc3], rfl⟩

/-- The key of its only controller. -/
def sampleController : Digest :=
  ⟨[0x5b, 0x94, 0x37, 0xad, 0xea, 0xff, 0xbe, 0x8f, 0x41, 0xb1, 0x3d, 0x96, 0xed, 0x49, 0xd2,
    0xf5, 0x1c, 0xd6, 0xc2, 0x66, 0xcd, 0x8e, 0xcc, 0x28, 0x4b, 0x05, 0x52, 0xec, 0x49, 0x12,
    0xb8, 0xdd], rfl⟩

/-- The first binding of the sample server. -/
def sampleBinding : Binding where
  tenant := "acme"
  authorityId := List.Vector.replicate 16 7
  epoch := 0
  revision := 0
  leasePublic := sampleLease
  sealingPublic := List.Vector.replicate 32 1
  urls := ["https://a.example"]
  pins := []
  durability := .local_
  recovery := .undeclared
  status := .serving
  roster := [sampleController]
  threshold := 1
  operationId := zeros 16
  previous := zeros 32
  issuedAt := 100
  expiresAt := 1000

/-- The same binding with its address written twice. -/
def repeatedBinding : Binding :=
  { sampleBinding with urls := ["https://a.example", "https://a.example"] }

/-- The signature of the sample binding. -/
def sampleBindingSignature : Signature :=
  ⟨[0x9e, 0xbd, 0xb9, 0xab, 0xee, 0x4d, 0x9d, 0x4f, 0xd1, 0x7d, 0x42, 0xdf, 0x0e, 0xb6, 0xc6,
    0x45, 0x76, 0x11, 0xdc, 0x26, 0xa1, 0x84, 0xbb, 0x32, 0x4b, 0x09, 0xe0, 0x45, 0x1c, 0xa0,
    0x8d, 0x5f, 0x53, 0x19, 0x9f, 0xbc, 0x51, 0xe3, 0x47, 0xaf, 0x2f, 0xbb, 0xfd, 0xd0, 0x54,
    0x72, 0x46, 0x95, 0xb3, 0x94, 0x01, 0xab, 0x87, 0xa6, 0xa8, 0x66, 0x2a, 0x38, 0xc3, 0xaa,
    0x10, 0x3b, 0x2d, 0x01], rfl⟩

/-- The signature of the binding that repeats its address. -/
def repeatedBindingSignature : Signature :=
  ⟨[0x2a, 0xfb, 0x85, 0x37, 0x9e, 0xa7, 0x3e, 0xc0, 0x0e, 0x5b, 0xb9, 0x24, 0x0d, 0x2d, 0x46,
    0x39, 0xec, 0xcf, 0x24, 0xb4, 0x38, 0xe8, 0x2e, 0x9e, 0x4b, 0x76, 0x4b, 0x12, 0x7a, 0x26,
    0x27, 0x18, 0x54, 0x48, 0x22, 0x8c, 0xad, 0x6d, 0xa5, 0x70, 0x2d, 0x27, 0xba, 0x8e, 0x81,
    0x66, 0xe2, 0x4c, 0x5b, 0x3d, 0x59, 0x1a, 0x3c, 0x38, 0xb0, 0xc2, 0x62, 0xd5, 0x1b, 0xac,
    0x0b, 0xc8, 0x1b, 0x0d], rfl⟩

/-- The message of a binding: what its signature covers. -/
def bindingMessage (binding : Binding) : List UInt8 :=
  (transcript .authorityBinding (binding.body.toOption.getD [])).asBytes

/-- The sample server, as far as its two bindings go. -/
def sampleSigner : Signer :=
  recordedSigner sampleLease [(bindingMessage sampleBinding, sampleBindingSignature),
    (bindingMessage repeatedBinding, repeatedBindingSignature)]

/-- Ed25519, as far as the two bindings go. -/
def bindingsEd25519 : Ed25519 :=
  recordedEd25519 [(sampleLease, bindingMessage sampleBinding, sampleBindingSignature),
    (sampleLease, bindingMessage repeatedBinding, repeatedBindingSignature)]

theorem lawful_sampleSigner : sampleSigner.Lawful bindingsEd25519 :=
  lawful_recordedSigner (by simp)

/-- The sample binding as it is signed. -/
def sampleBindingBytes : List UInt8 :=
  sampleBindingSignature.toList ++ sampleBinding.body.toOption.getD []

/-- The binding that repeats its address as it is signed. -/
def repeatedBindingBytes : List UInt8 :=
  repeatedBindingSignature.toList ++ repeatedBinding.body.toOption.getD []

/-- No function of SHA-256 is asked for a binding. -/
def unaskedSha : Sha2 := ⟨fun _ ↦ zeros 32, fun _ _ ↦ zeros 32, fun _ _ _ n ↦ zeros n⟩

/-- The sample binding is opened as it was signed. -/
theorem signed_iff_opened_sampleBinding :
    sampleSigner.Lawful bindingsEd25519 ∧ sampleBinding.sign sampleSigner = .ok sampleBindingBytes ∧
      Binding.open_ bindingsEd25519 sampleBindingBytes sampleSigner.publicKey = .ok sampleBinding := by
  have hsign : sampleBinding.sign sampleSigner = .ok sampleBindingBytes := by decide +kernel
  refine ⟨lawful_sampleSigner, hsign, ?_⟩
  exact ((signed_iff_opened unaskedSha bindingsEd25519 sampleSigner lawful_sampleSigner).1 _ _
    hsign).mpr (by decide)

/-- A binding that repeats an address is signed, and refused when it is opened. -/
theorem repeated_url_signed_not_opened :
    sampleSigner.Lawful bindingsEd25519 ∧
      repeatedBinding.sign sampleSigner = .ok repeatedBindingBytes ∧
      Binding.open_ bindingsEd25519 repeatedBindingBytes sampleSigner.publicKey =
        .error (.badFieldLength BindingTag.urls 17) :=
  ⟨lawful_sampleSigner, by decide +kernel, by decide +kernel⟩

end Control

end OpenCrate.Protocol
