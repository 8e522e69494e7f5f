import OpenCrate.Format.HeaderRoundTrip
import OpenCrate.Protocol.OldLeases
import OpenCrate.Protocol.Rosters

/-!
# Collecting signatures

`cosign` and `cosign_transfer` of `control` add one signature to an envelope: they split it, verify what
is there, and assemble it again. The envelope is sorted by keys at every step, so what matters of the
signatures collected so far is which they are. One step is `signNext_envelope`, a whole collection
`collect_eq`; that the order of the signers does not matter follows from there.
-/

namespace OpenCrate.Protocol

open OpenCrate.Format OpenCrate.Crypto
open Except (refuseIf okOr)

namespace Control

variable {ed : Ed25519}

/-! ### Sorted signatures -/

/-- The signatures by ascending keys. -/
def sortSignatures (signatures : List (Digest × Signature)) : List (Digest × Signature) :=
  signatures.insertionSort fun a b ↦ a.1.toList ≤ b.1.toList

/-- The signatures behind their number and before the body. -/
def envelope (body : List UInt8) (signatures : List (Digest × Signature)) : List UInt8 :=
  UInt8.ofNat signatures.length :: (signatures.flatMap signatureBytes ++ body)

/-- Sorting keeps the signatures, and each of them once. -/
theorem perm_sortSignatures (signatures : List (Digest × Signature)) :
    (sortSignatures signatures).Perm signatures :=
  List.perm_insertionSort _ _

theorem length_sortSignatures (signatures : List (Digest × Signature)) :
    (sortSignatures signatures).length = signatures.length :=
  (perm_sortSignatures signatures).length_eq

theorem nodup_sortSignatures {signatures : List (Digest × Signature)}
    (hnodup : (signatures.map Prod.fst).Nodup) : ((sortSignatures signatures).map Prod.fst).Nodup :=
  ((perm_sortSignatures signatures).map Prod.fst).nodup_iff.2 hnodup

/-- Signatures of different keys are sorted strictly. -/
theorem pairwise_sortSignatures {signatures : List (Digest × Signature)}
    (hnodup : (signatures.map Prod.fst).Nodup) :
    (sortSignatures signatures).Pairwise fun a b ↦ keyLt a.1 b.1 := by
  have : Std.Total fun a b : Digest × Signature ↦ a.1.toList ≤ b.1.toList :=
    ⟨fun a b ↦ List.le_total a.1.toList b.1.toList⟩
  have : IsTrans (Digest × Signature) fun a b ↦ a.1.toList ≤ b.1.toList :=
    ⟨fun a b c hab hbc ↦ List.le_trans hab hbc⟩
  have hsorted : (sortSignatures signatures).Pairwise fun a b ↦ a.1.toList ≤ b.1.toList :=
    List.pairwise_insertionSort _ _
  have hdistinct := List.pairwise_map.1 (nodup_sortSignatures hnodup)
  refine (hsorted.and hdistinct).imp fun {a b} h ↦ ?_
  by_contra hnot
  exact h.2 (List.Vector.toList_injective (List.le_antisymm h.1 (List.not_lt.1 hnot)))

/-- The sorted envelope of some signatures of different keys does not depend on their order. -/
theorem sortSignatures_eq_of_perm {signatures signatures' : List (Digest × Signature)}
    (h : signatures.Perm signatures') (hnodup : (signatures.map Prod.fst).Nodup) :
    sortSignatures signatures = sortSignatures signatures' := by
  have hperm : (sortSignatures signatures).Perm (sortSignatures signatures') :=
    (perm_sortSignatures _).trans (h.trans (perm_sortSignatures _).symm)
  refine hperm.eq_of_pairwise (fun a b _ _ hab hba ↦ ?_) (pairwise_sortSignatures hnodup)
    (pairwise_sortSignatures ((h.map Prod.fst).nodup_iff.1 hnodup))
  exact absurd (List.lt_trans hab hba) (List.lt_irrefl _)

/-- One to sixteen signatures of different keys are assembled. -/
theorem assemble_eq (body : List UInt8) {signatures : List (Digest × Signature)}
    (hne : signatures ≠ []) (hmax : signatures.length ≤ maxSigners)
    (hnodup : (signatures.map Prod.fst).Nodup) :
    assemble body signatures = .ok (envelope body (sortSignatures signatures)) := by
  have hchain : (sortSignatures signatures).IsChain fun a b ↦ a.1 ≠ b.1 :=
    (List.pairwise_map.1 (nodup_sortSignatures hnodup)).isChain
  have hsorted : sortSignatures signatures ≠ [] := by
    rw [← List.length_pos_iff, length_sortSignatures]
    exact List.length_pos_of_ne_nil hne
  show (refuseIf (sortSignatures signatures = [] ∨ maxSigners < (sortSignatures signatures).length ∨
    ¬(sortSignatures signatures).IsChain fun a b ↦ a.1 ≠ b.1) _ >>= fun _ ↦ _) = _
  rw [Except.refuseIf_of_not, Except.ok_bind]
  · rfl
  · rw [length_sortSignatures]
    rintro (hnil | hmany | hrepeated)
    · exact hsorted hnil
    · exact absurd hmany (not_lt.2 hmax)
    · exact hrepeated hchain

/-- A document has at most sixteen signatures. -/
theorem length_le_of_assemble {body bytes : List UInt8} {signatures : List (Digest × Signature)}
    (h : assemble body signatures = .ok bytes) : signatures.length ≤ maxSigners := by
  rw [assemble] at h
  obtain ⟨hproper, -⟩ := Except.check_bind_eq_ok_iff.1 h
  rw [Except.refuseIf_eq_ok_iff, List.length_insertionSort, not_or, not_or] at hproper
  exact not_lt.1 hproper.2.1

/-- A count in one byte, the signatures, and the body. -/
theorem length_envelope (body : List UInt8) (signatures : List (Digest × Signature)) :
    (envelope body signatures).length = 1 + 96 * signatures.length + body.length := by
  rw [envelope, List.length_cons, List.length_append, length_flatMap_signatureBytes]
  omega

/-- A sorted envelope within the limit is split again. -/
theorem splitRequest_envelope {body : List UInt8} {signatures : List (Digest × Signature)}
    (hne : signatures ≠ []) (hmax : signatures.length ≤ maxSigners)
    (hnodup : (signatures.map Prod.fst).Nodup)
    (hfits : 1 + 96 * signatures.length + body.length ≤ maxDocumentLen) :
    splitRequest (envelope body (sortSignatures signatures)) = .ok (sortSignatures signatures, body) := by
  have hlength := length_sortSignatures signatures
  refine splitRequest_eq_ok_iff.2 ⟨rfl, ?_, ?_, hlength ▸ hmax, ?_⟩
  · rwa [length_envelope, hlength]
  · rw [hlength]
    exact List.length_pos_of_ne_nil hne
  · exact (pairwise_sortSignatures hnodup).isChain

/-! ### Collecting -/

variable {α : Type} (label : Label)

/-- Sign a body with one key. -/
def signFirst (body : List UInt8) (signer : Signer) : Except FormatError (List UInt8) := do
  let sig ← (signer.sign (transcript label body)).mapError fun _ ↦ .badHeaderSignature
  assemble body [(signer.publicKey, sig)]

/-- Append another signature over the same body to a document that opens. -/
def signNext (open_ : List UInt8 → Except FormatError α) (bytes : List UInt8) (signer : Signer) :
    Except FormatError (List UInt8) := do
  let (signatures, body) ← splitRequest bytes
  let _ ← open_ bytes
  refuseIf (signer.publicKey ∈ signatures.map Prod.fst) (bad 0 signatures.length)
  let sig ← (signer.sign (transcript label body)).mapError fun _ ↦ .badHeaderSignature
  assemble body (signatures ++ [(signer.publicKey, sig)])

/-- Both ways of adding a signature are one function. -/
theorem cosign_eq_signNext (sha : Sha2) :
    cosign sha ed = signNext .controlRequest (openRequest sha ed) := rfl

theorem cosignTransfer_eq_signNext :
    cosignTransfer ed = signNext .authorityTransfer (openTransfer ed) := rfl

/-- Sign with the first, and cosign with the others in their order. -/
def collect (sign : Signer → Except FormatError (List UInt8))
    (cosign : List UInt8 → Signer → Except FormatError (List UInt8)) (first : Signer)
    (rest : List Signer) : Except FormatError (List UInt8) := do
  let bytes ← sign first
  rest.foldlM cosign bytes

/-- The signature of a signer over a body, with its key. -/
def signatureOf (body : List UInt8) (signer : Signer) : Except FormatError (Digest × Signature) :=
  ((signer.sign (transcript label body)).mapError fun _ ↦ .badHeaderSignature).map (signer.publicKey, ·)

variable {label}

/-- The signature of a signer stands beside its key. -/
theorem signatureOf_eq_ok_iff {body : List UInt8} {signer : Signer} {s : Digest × Signature} :
    signatureOf label body signer = .ok s ↔
      signer.publicKey = s.1 ∧ signer.sign (transcript label body) = .ok s.2 := by
  rw [signatureOf, Except.map_eq_ok_iff]
  simp only [Except.mapError_eq_ok_iff]
  constructor
  · rintro ⟨signature, hsign, rfl⟩
    exact ⟨rfl, hsign⟩
  · rintro ⟨hkey, hsign⟩
    exact ⟨s.2, hsign, by rw [hkey]⟩

/-- The keys of the signatures are those of the signers, in order. -/
theorem map_fst_signatures {body : List UInt8} {signers : List Signer}
    {signatures : List (Digest × Signature)} (h : signers.mapM (signatureOf label body) = .ok signatures) :
    signatures.map Prod.fst = signers.map Signer.publicKey := by
  have hall := Except.mapM_eq_ok_iff.1 h
  induction hall with
  | nil => rfl
  | cons hs _ ih =>
    rw [List.map_cons, List.map_cons, (signatureOf_eq_ok_iff.1 hs).1, ih (Except.mapM_eq_ok_iff.2 ‹_›)]

/-- Signers that sign give signatures. -/
theorem exists_signatures {body : List UInt8} {signers : List Signer}
    (h : ∀ signer ∈ signers, ∃ signature, signer.sign (transcript label body) = .ok signature) :
    ∃ signatures, signers.mapM (signatureOf label body) = .ok signatures := by
  simp only [Except.mapM_eq_ok_iff]
  induction signers with
  | nil => exact ⟨[], .nil⟩
  | cons signer signers ih =>
    obtain ⟨⟨signature, hsign⟩, hrest⟩ := List.forall_mem_cons.1 h
    obtain ⟨signatures, hall⟩ := ih hrest
    exact ⟨(signer.publicKey, signature) :: signatures,
      .cons (signatureOf_eq_ok_iff.2 ⟨rfl, hsign⟩) hall⟩

/-- Lawful signers make signatures that verify. -/
theorem verify_signatures {body : List UInt8} {signers : List Signer}
    {signatures : List (Digest × Signature)} (hlawful : ∀ signer ∈ signers, signer.Lawful ed)
    (h : signers.mapM (signatureOf label body) = .ok signatures) :
    ∀ s ∈ signatures, verify ed s.1 (transcript label body) s.2 = .ok () := by
  have hall := Except.mapM_eq_ok_iff.1 h
  clear h
  induction hall with
  | nil => exact List.forall_mem_nil _
  | cons hs _ ih =>
    obtain ⟨hfirst, hrest⟩ := List.forall_mem_cons.1 hlawful
    obtain ⟨hkey, hsignature⟩ := signatureOf_eq_ok_iff.1 hs
    exact List.forall_mem_cons.2 ⟨hkey ▸ hfirst hsignature, ih hrest⟩

/-- There is one way in which a signature is not made. -/
theorem signatureOf_error {body : List UInt8} {signer : Signer} {e : FormatError}
    (h : signatureOf label body signer = .error e) : e = .badHeaderSignature := by
  rw [signatureOf] at h
  cases hsign : signer.sign (transcript label body) with
  | error e' =>
    rw [hsign] at h
    exact (Except.error.inj h).symm
  | ok signature =>
    rw [hsign] at h
    exact absurd h Except.ok_ne_error

/-- The only error is that of a signer. -/
theorem signatures_error {body : List UInt8} {signers : List Signer} {e : FormatError}
    (h : signers.mapM (signatureOf label body) = .error e) : e = .badHeaderSignature := by
  induction signers with
  | nil => exact absurd h Except.ok_ne_error
  | cons signer signers ih =>
    rw [List.mapM_cons] at h
    obtain hfirst | ⟨s, -, hrest⟩ := Except.bind_eq_error_iff.1 h
    · exact signatureOf_error hfirst
    · obtain hrest | ⟨signatures, -, hpure⟩ := Except.bind_eq_error_iff.1 hrest
      · exact ih hrest
      · exact absurd hpure Except.ok_ne_error

/-- The sorted signatures of some signers do not depend on their order. -/
theorem signatures_map_sort_eq_of_perm {body : List UInt8} {signers signers' : List Signer}
    (h : signers.Perm signers') (hnodup : (signers.map Signer.publicKey).Nodup) :
    (signers.mapM (signatureOf label body)).map sortSignatures =
      (signers'.mapM (signatureOf label body)).map sortSignatures := by
  -- a result in one order is one in every other
  have hresult : ∀ {signers signers' : List Signer} {signatures}, signers.Perm signers' →
      signers.mapM (signatureOf label body) = .ok signatures →
        ∃ signatures', signers'.mapM (signatureOf label body) = .ok signatures' ∧
          signatures'.Perm signatures := by
    intro signers signers' signatures hperm hall
    obtain ⟨signatures', hall', hperm'⟩ :=
      List.perm_comp_forall₂ hperm.symm (Except.mapM_eq_ok_iff.1 hall)
    exact ⟨signatures', Except.mapM_eq_ok_iff.2 hall', hperm'⟩
  cases hall : signers.mapM (signatureOf label body) with
  | error e =>
    cases hall' : signers'.mapM (signatureOf label body) with
    | error e' => rw [signatures_error hall, signatures_error hall']
    | ok signatures' =>
      obtain ⟨signatures, hok, -⟩ := hresult h.symm hall'
      exact absurd (hall.symm.trans hok) Except.error_ne_ok
  | ok signatures =>
    obtain ⟨signatures', hall', hperm⟩ := hresult h hall
    rw [hall']
    refine congrArg Except.ok (sortSignatures_eq_of_perm hperm.symm ?_)
    rwa [map_fst_signatures hall]

variable (ed label) in
/-- Every envelope of a body with good signatures opens to something that depends on the keys alone. -/
def Opens (open_ : List UInt8 → Except FormatError α) (body : List UInt8) (opened : List Digest → α) :
    Prop :=
  ∀ signatures, splitRequest (envelope body signatures) = .ok (signatures, body) →
    (∀ s ∈ signatures, verify ed s.1 (transcript label body) s.2 = .ok ()) →
    open_ (envelope body signatures) = .ok (opened (signatures.map Prod.fst))

/-- Signatures that can stand in an envelope of a body and verify there. -/
structure Collected (ed : Ed25519) (label : Label) (body : List UInt8)
    (signatures : List (Digest × Signature)) : Prop where
  ne_nil : signatures ≠ []
  few : signatures.length ≤ maxSigners
  nodup : (signatures.map Prod.fst).Nodup
  fits : 1 + 96 * signatures.length + body.length ≤ maxDocumentLen
  verified : ∀ s ∈ signatures, verify ed s.1 (transcript label body) s.2 = .ok ()

namespace Collected

variable {open_ : List UInt8 → Except FormatError α} {body : List UInt8} {opened : List Digest → α}
  {signatures : List (Digest × Signature)}

/-- What was collected is split again. -/
theorem split (h : Collected ed label body signatures) :
    splitRequest (envelope body (sortSignatures signatures)) = .ok (sortSignatures signatures, body) :=
  splitRequest_envelope h.ne_nil h.few h.nodup h.fits

/-- **What was collected opens**, to the keys in their order. -/
theorem opens (h : Collected ed label body signatures) (hopen : Opens ed label open_ body opened) :
    open_ (envelope body (sortSignatures signatures)) =
      .ok (opened ((sortSignatures signatures).map Prod.fst)) :=
  hopen _ h.split fun s hs ↦ h.verified s ((perm_sortSignatures signatures).mem_iff.1 hs)

/-- The keys of the envelope are those of the signatures, in ascending order. -/
theorem keys (h : Collected ed label body signatures) :
    ((sortSignatures signatures).map Prod.fst).Perm (signatures.map Prod.fst) ∧
      ((sortSignatures signatures).map Prod.fst).IsChain keyLt :=
  ⟨(perm_sortSignatures signatures).map _,
    (List.isChain_map _).2 (pairwise_sortSignatures h.nodup).isChain⟩

/-- **One more signature.** The document after it is the sorted envelope of all. -/
theorem signNext_eq (h : Collected ed label body signatures) (hopen : Opens ed label open_ body opened)
    {signer : Signer} (hnew : signer.publicKey ∉ signatures.map Prod.fst)
    (hroom : signatures.length < maxSigners) :
    signNext label open_ (envelope body (sortSignatures signatures)) signer =
      (signatureOf label body signer).map fun s ↦ envelope body (sortSignatures (signatures ++ [s])) := by
  have hmem : signer.publicKey ∉ (sortSignatures signatures).map Prod.fst :=
    fun hmem ↦ hnew (h.keys.1.mem_iff.1 hmem)
  simp only [signNext, h.split, h.opens hopen, Except.ok_bind, Except.refuseIf_of_not hmem, signatureOf]
  cases hsign : signer.sign (transcript label body) with
  | error e => rfl
  | ok signature =>
    have hperm : (sortSignatures signatures ++ [(signer.publicKey, signature)]).Perm
        (signatures ++ [(signer.publicKey, signature)]) :=
      (perm_sortSignatures signatures).append_right _
    have hnodup : ((signatures ++ [(signer.publicKey, signature)]).map Prod.fst).Nodup := by
      rw [List.map_append]
      exact h.nodup.append (List.nodup_singleton _) (List.disjoint_singleton.2 hnew)
    have hnodup' := (hperm.map Prod.fst).nodup_iff.2 hnodup
    show assemble body (sortSignatures signatures ++ [(signer.publicKey, signature)]) = _
    rw [assemble_eq body (List.append_ne_nil_of_right_ne_nil _ (List.cons_ne_nil _ _)) ?_ hnodup',
      sortSignatures_eq_of_perm hperm hnodup']
    · rfl
    · rw [hperm.length_eq, List.length_append, List.length_singleton]
      exact hroom

/-- No second signature of a key, and no seventeenth. -/
theorem exists_signNext_error (h : Collected ed label body signatures)
    (hopen : Opens ed label open_ body opened) {signer : Signer}
    (hno : signer.publicKey ∈ signatures.map Prod.fst ∨ signatures.length = maxSigners) :
    ∃ e, signNext label open_ (envelope body (sortSignatures signatures)) signer = .error e := by
  cases hnext : signNext label open_ (envelope body (sortSignatures signatures)) signer with
  | error e => exact ⟨e, rfl⟩
  | ok bytes =>
    simp only [signNext, h.split, h.opens hopen, Except.ok_bind, Except.bind_eq_ok_iff,
      Except.refuseIf_eq_ok_iff] at hnext
    obtain ⟨⟨⟩, hnew, signature, -, hassemble⟩ := hnext
    have hroom := length_le_of_assemble hassemble
    rw [List.length_append, length_sortSignatures, List.length_singleton] at hroom
    obtain hmem | hfull := hno
    · exact absurd (h.keys.1.mem_iff.2 hmem) hnew
    · omega

/-- **One more signature keeps it collected**, if its key is new and there is room. -/
theorem append (h : Collected ed label body signatures) {s : Digest × Signature}
    (hnew : s.1 ∉ signatures.map Prod.fst) (hroom : signatures.length < maxSigners)
    (hfits : 1 + 96 * (signatures.length + 1) + body.length ≤ maxDocumentLen)
    (hverify : verify ed s.1 (transcript label body) s.2 = .ok ()) :
    Collected ed label body (signatures ++ [s]) where
  ne_nil := List.append_ne_nil_of_right_ne_nil _ (List.cons_ne_nil _ _)
  few := by
    rw [List.length_append]
    exact hroom
  nodup := by
    rw [List.map_append]
    exact h.nodup.append (List.nodup_singleton _) (List.disjoint_singleton.2 hnew)
  fits := by
    rw [List.length_append]
    exact hfits
  verified := by
    intro s' hs'
    obtain hold | hlast := List.mem_append.1 hs'
    · exact h.verified s' hold
    · rw [List.mem_singleton.1 hlast]
      exact hverify

/-- The documents on the way are all accepted, so the signatures of the others come on top. -/
theorem foldlM_signNext_eq (hopen : Opens ed label open_ body opened) {rest : List Signer}
    (h : Collected ed label body signatures) (hlawful : ∀ signer ∈ rest, signer.Lawful ed)
    (hnodup : (signatures.map Prod.fst ++ rest.map Signer.publicKey).Nodup)
    (hmax : signatures.length + rest.length ≤ maxSigners)
    (hfits : 1 + 96 * (signatures.length + rest.length) + body.length ≤ maxDocumentLen) :
    rest.foldlM (signNext label open_) (envelope body (sortSignatures signatures)) =
      (rest.mapM (signatureOf label body)).map fun more ↦
        envelope body (sortSignatures (signatures ++ more)) := by
  -- by induction on the signers to come; what is collected so far stays a valid envelope
  induction rest generalizing signatures with
  | nil => simp [Except.map, pure, Except.pure]
  | cons signer rest ih =>
    obtain ⟨hfirst, hrest⟩ := List.forall_mem_cons.1 hlawful
    rw [List.length_cons] at hmax hfits
    have hnew : signer.publicKey ∉ signatures.map Prod.fst := fun hmem ↦
      List.disjoint_of_nodup_append hnodup hmem List.mem_cons_self
    rw [List.foldlM_cons, List.mapM_cons, h.signNext_eq hopen hnew (by omega)]
    -- a refusal of the signer stops both sides
    cases hsign : signatureOf label body signer with
    | error e => rfl
    | ok s =>
      obtain ⟨hkey, hsignature⟩ := signatureOf_eq_ok_iff.1 hsign
      have hnext : Collected ed label body (signatures ++ [s]) :=
        h.append (hkey ▸ hnew) (by omega) (by omega) (hkey ▸ hfirst hsignature)
      rw [Except.ok_map, Except.ok_bind, Except.ok_bind, ih hnext hrest]
      · cases rest.mapM (signatureOf label body) with
        | error e => rfl
        | ok more => simp [Except.map, pure, Except.pure]
      · rw [List.map_append, List.append_assoc, List.map_singleton, ← hkey]
        exact hnodup
      · rw [List.length_append, List.length_singleton]
        omega
      · rw [List.length_append, List.length_singleton]
        omega

end Collected

/-- **What a collection comes to.** The sorted envelope of the signatures of all signers. -/
theorem collect_eq {open_ : List UInt8 → Except FormatError α} {body : List UInt8}
    {opened : List Digest → α} (hopen : Opens ed label open_ body opened) {first : Signer}
    {rest : List Signer} (hlawful : ∀ signer ∈ first :: rest, signer.Lawful ed)
    (hnodup : ((first :: rest).map Signer.publicKey).Nodup) (hmax : (first :: rest).length ≤ maxSigners)
    (hfits : 1 + 96 * (first :: rest).length + body.length ≤ maxDocumentLen) :
    collect (signFirst label body) (signNext label open_) first rest =
      ((first :: rest).mapM (signatureOf label body)).map fun s ↦ envelope body (sortSignatures s) := by
  obtain ⟨hfirst, hrest⟩ := List.forall_mem_cons.1 hlawful
  rw [List.length_cons] at hmax hfits
  rw [collect, List.mapM_cons, signFirst, signatureOf]
  cases hsign : first.sign (transcript label body) with
  | error e => rfl
  | ok signature =>
    have hone : Collected ed label body [(first.publicKey, signature)] :=
      ⟨List.cons_ne_nil _ _, by simp [maxSigners], List.nodup_singleton _,
        by rw [List.length_singleton]; omega, List.forall_mem_singleton.2 (hfirst hsign)⟩
    show (assemble body [(first.publicKey, signature)] >>= fun bytes ↦ rest.foldlM _ bytes) = _
    rw [assemble_eq body hone.ne_nil hone.few hone.nodup, Except.ok_bind,
      hone.foldlM_signNext_eq hopen hrest hnodup (by rw [List.length_singleton]; omega)
        (by rw [List.length_singleton]; omega)]
    cases rest.mapM (signatureOf label body) with
    | error e => rfl
    | ok more => rfl

/-- **Collecting signatures does not depend on the order.** What signing with one of the signers and
cosigning with the others leads to: one result for all orders, a document if every signer signs, and a
document that opens under all keys and takes no signature of one of them, or no more than sixteen. -/
structure OrderIndependent (sign : Signer → Except FormatError (List UInt8))
    (cosign : List UInt8 → Signer → Except FormatError (List UInt8))
    (open_ : List UInt8 → Except FormatError α) (opened : List Digest → α) (t : Transcript)
    (signers : List Signer) : Prop where
  same : ∀ first rest first' rest', (first :: rest).Perm signers → (first' :: rest').Perm signers →
    collect sign cosign first rest = collect sign cosign first' rest'
  complete : (∀ signer ∈ signers, ∃ signature, signer.sign t = .ok signature) →
    ∀ first rest, (first :: rest).Perm signers →
      ∃ document, collect sign cosign first rest = .ok document
  opens : ∀ first rest document, (first :: rest).Perm signers →
    collect sign cosign first rest = .ok document →
      ∃ keys, keys.Perm (signers.map Signer.publicKey) ∧ keys.IsChain keyLt ∧
        open_ document = .ok (opened keys)
  closed : ∀ first rest document, (first :: rest).Perm signers →
    collect sign cosign first rest = .ok document → ∀ signer : Signer,
      signer.publicKey ∈ signers.map Signer.publicKey ∨ signers.length = maxSigners →
        ∃ e, cosign document signer = .error e

/-- Signatures over a body whose envelopes open are collected in any order. -/
theorem orderIndependent {open_ : List UInt8 → Except FormatError α} {body : List UInt8}
    {opened : List Digest → α} (hopen : Opens ed label open_ body opened) {signers : List Signer}
    (hlawful : ∀ signer ∈ signers, signer.Lawful ed) (hnodup : (signers.map Signer.publicKey).Nodup)
    (hmax : signers.length ≤ maxSigners)
    (hfits : 1 + 96 * signers.length + body.length ≤ maxDocumentLen) :
    OrderIndependent (signFirst label body) (signNext label open_) open_ opened (transcript label body)
      signers := by
  -- any order collects the same signatures, sorted by their keys
  have hcollect : ∀ first rest, (first :: rest).Perm signers →
      collect (signFirst label body) (signNext label open_) first rest =
        (signers.mapM (signatureOf label body)).map fun s ↦ envelope body (sortSignatures s) := by
    intro first rest hperm
    have hnodup' := (hperm.map Signer.publicKey).nodup_iff.2 hnodup
    have hlength := hperm.length_eq
    rw [collect_eq hopen (fun signer h ↦ hlawful signer (hperm.mem_iff.1 h)) hnodup' (by omega)
      (by omega)]
    have hsort : ((first :: rest).mapM (signatureOf label body)).map sortSignatures =
        (signers.mapM (signatureOf label body)).map sortSignatures :=
      signatures_map_sort_eq_of_perm hperm hnodup'
    have henvelope := congrArg (Except.map (envelope body)) hsort
    rwa [Except.map_map, Except.map_map] at henvelope
  -- and what is collected is a valid envelope over all the signers
  have hdocument : ∀ {first rest document}, (first :: rest).Perm signers →
      collect (signFirst label body) (signNext label open_) first rest = .ok document →
      ∃ signatures, Collected ed label body signatures ∧
        signatures.map Prod.fst = signers.map Signer.publicKey ∧
        document = envelope body (sortSignatures signatures) := by
    intro first rest document hperm h
    rw [hcollect first rest hperm] at h
    obtain ⟨signatures, hall, rfl⟩ := Except.map_eq_ok_iff.1 h
    have hkeys := map_fst_signatures hall
    have hlength : signatures.length = signers.length := by simpa using congrArg List.length hkeys
    have hcons := hperm.length_eq
    rw [List.length_cons] at hcons
    exact ⟨signatures, ⟨List.ne_nil_of_length_pos (by omega), by omega, hkeys ▸ hnodup, by omega,
      verify_signatures hlawful hall⟩, hkeys, rfl⟩
  refine ⟨?_, ?_, ?_, ?_⟩
  · intro first rest first' rest' hperm hperm'
    rw [hcollect first rest hperm, hcollect first' rest' hperm']
  · intro hsigns first rest hperm
    obtain ⟨signatures, hall⟩ := exists_signatures hsigns
    rw [hcollect first rest hperm, hall]
    exact ⟨_, rfl⟩
  · intro first rest document hperm h
    obtain ⟨signatures, hcollected, hkeys, rfl⟩ := hdocument hperm h
    exact ⟨_, hkeys ▸ hcollected.keys.1, hcollected.keys.2, hcollected.opens hopen⟩
  · intro first rest document hperm h signer hno
    obtain ⟨signatures, hcollected, hkeys, rfl⟩ := hdocument hperm h
    have hlength : signatures.length = signers.length := by simpa using congrArg List.length hkeys
    rw [← hkeys, ← hlength] at hno
    exact hcollected.exists_signNext_error hopen hno

/-! ### Requests and transfers -/

/-- Proper addresses are told apart by what is written. -/
theorem flatMap_urlBytes_inj {tag : UInt16} {urls urls' : List String}
    (hproper : ∀ url ∈ urls, checkUrl url tag = .ok ()) (hproper' : ∀ url ∈ urls', checkUrl url tag = .ok ())
    (h : urls.flatMap urlBytes = urls'.flatMap urlBytes) : urls = urls' := by
  induction urls generalizing urls' with
  | nil => exact (flatMap_urlBytes_eq_nil_iff.1 h.symm).symm
  | cons url urls ih =>
    cases urls' with
    | nil => exact flatMap_urlBytes_eq_nil_iff.1 h
    | cons url' urls' =>
      obtain ⟨hurl, hurls⟩ := List.forall_mem_cons.1 hproper
      obtain ⟨hurl', hurls'⟩ := List.forall_mem_cons.1 hproper'
      rw [List.flatMap_cons, List.flatMap_cons] at h
      have hread : decodeUrl tag (urlBytes url ++ urls.flatMap urlBytes) = .ok (url, _) :=
        decodeUrl_eq_ok_iff.2 ⟨hurl, rfl⟩
      rw [h, decodeUrl_eq_ok_iff.2 ⟨hurl', rfl⟩] at hread
      obtain ⟨rfl, htail⟩ := Prod.mk.inj (Except.ok.inj hread)
      rw [ih hurls hurls' htail.symm]

/-- A payload written like one without repeated addresses has none either. -/
theorem Payload.nodupUrls_of_encode_eq {payload payload' : Payload} {bytes : List UInt8}
    (h : payload.encode = .ok bytes) (h' : payload'.encode = .ok bytes)
    (hkind : payload.kind = payload'.kind) (hnodup : payload'.NodupUrls) : payload.NodupUrls := by
  obtain ⟨l, hl, henc⟩ := encode_eq_ok_iff.1 h
  obtain ⟨l', hl', henc'⟩ := encode_eq_ok_iff.1 h'
  obtain rfl := henc.unique henc'
  cases payload with
  | setEndpoints urls pins =>
    cases payload' with
    | setEndpoints urls' pins' =>
      simp only [contents, Except.bind_eq_ok_iff, Except.ok.injEq] at hl hl'
      obtain ⟨written, hurls, _, -, rfl⟩ := hl
      obtain ⟨written', hurls', _, -, heq⟩ := hl'
      obtain rfl : written' = written := (Prod.mk.inj (List.cons.inj heq).1).2
      obtain ⟨⟨-, -, hproper⟩, hbytes⟩ := encodeUrls_eq_ok_iff.1 hurls
      obtain ⟨⟨-, -, hproper'⟩, hbytes'⟩ := encodeUrls_eq_ok_iff.1 hurls'
      rw [NodupUrls, flatMap_urlBytes_inj hproper hproper' (hbytes.symm.trans hbytes')]
      exact hnodup
    | _ => exact absurd hkind (by simp [kind])
  | _ => trivial

/-- A request that was written and is read is read as what it is. -/
theorem ControlRequest.decodeBody_body {request request' : ControlRequest} {body : List UInt8}
    (hbody : request.body = .ok body) (h : decodeBody body = .ok request') :
    decodeBody body = .ok request := by
  obtain ⟨written, hcarries, hnodup, hbody'⟩ := decodeBody_eq_ok_iff.1 h
  obtain ⟨-, -, -, -, payload, hpayload, henc⟩ := body_eq_ok_iff.1 hbody
  obtain ⟨-, -, -, -, payload', hpayload', henc'⟩ := body_eq_ok_iff.1 hbody'
  obtain rfl := hcarries.eq_of_encodes henc mem_tags_of_mem_contents
  have hsame := henc.unique henc'
  simp only [contents, List.cons.injEq, Prod.mk.injEq, true_and, and_true] at hsame
  obtain ⟨-, -, -, -, -, -, -, hkind, rfl⟩ := hsame
  exact decodeBody_eq_ok_iff.2 ⟨_, .refl henc mem_tags_of_mem_contents,
    Payload.nodupUrls_of_encode_eq hpayload hpayload' hkind hnodup, hbody⟩

/-- A request opens to its signers. -/
theorem opens_request (sha : Sha2) {request : ControlRequest} {body : List UInt8}
    (h : ControlRequest.decodeBody body = .ok request) :
    Opens ed .controlRequest (openRequest sha ed) body fun keys ↦ ⟨request, sha.sha256 body, keys⟩ :=
  fun signatures hsplit hverify ↦
    openRequest_eq_ok_iff.2 ⟨signatures, body, hsplit, hverify, h, rfl, rfl⟩

/-- And so does a transfer. -/
theorem opens_transfer {transfer : Transfer} {body : List UInt8}
    (h : Transfer.decodeBody body = .ok transfer) :
    Opens ed .authorityTransfer (openTransfer ed) body fun keys ↦ (transfer, keys) :=
  fun signatures hsplit hverify ↦
    openTransfer_eq_ok_iff.2 ⟨signatures, body, hsplit, hverify, h, rfl⟩

/-- A request whose form with one signature is accepted is the one that is read. -/
theorem ControlRequest.decodeBody_of_accepted {sha : Sha2} {request : ControlRequest} {signer : Signer}
    {bytes : List UInt8} {accepted : SignedRequest} (h : request.sign signer = .ok bytes)
    (haccepted : openRequest sha ed bytes = .ok accepted) :
    ∃ body, request.body = .ok body ∧ decodeBody body = .ok request := by
  simp only [sign, Except.bind_eq_ok_iff, Except.mapError_eq_ok_iff, assemble_singleton] at h
  obtain ⟨body, hbody, signature, -, hbytes⟩ := h
  obtain rfl := Except.ok.inj hbytes
  obtain ⟨signatures, body', hsplit, -, hdecode, -⟩ := openRequest_eq_ok_iff.1 haccepted
  obtain ⟨-, rfl, -⟩ := splitRequest_singleton_eq_ok_iff.1 hsplit
  exact ⟨_, hbody, decodeBody_body hbody hdecode⟩

/-- What is signed can be read. -/
theorem Transfer.decodeBody_of_sign {transfer : Transfer} {signer : Signer} {bytes : List UInt8}
    (h : transfer.sign signer = .ok bytes) :
    ∃ body, transfer.body = .ok body ∧ decodeBody body = .ok transfer := by
  obtain ⟨body, hbody, -⟩ := Except.bind_eq_ok_iff.1 h
  exact ⟨body, hbody, decodeBody_eq_ok_iff.2
    ⟨body, .refl (body_eq_ok_iff.1 hbody).2 mem_tags_of_mem_contents, hbody⟩⟩

/-- **Signatures are collected in any order.** For a request whose form with one signature is accepted,
and up to sixteen signers with different keys; for a transfer as long as the complete document, with the
signatures of all, is within the limit. -/
theorem signatures_order_independent (sha : Sha2) {signers : List Signer}
    (hlawful : ∀ signer ∈ signers, signer.Lawful ed) (hnodup : (signers.map Signer.publicKey).Nodup)
    (hmax : signers.length ≤ maxSigners) :
    (∀ (request : ControlRequest) (signer : Signer) (bytes : List UInt8) (accepted : SignedRequest),
      request.sign signer = .ok bytes → openRequest sha ed bytes = .ok accepted →
        ∃ body, request.body = .ok body ∧
          OrderIndependent request.sign (cosign sha ed) (openRequest sha ed)
            (fun keys ↦ ⟨request, sha.sha256 body, keys⟩) (transcript .controlRequest body) signers) ∧
    (∀ (transfer : Transfer) (signer : Signer) (bytes : List UInt8) (accepted : Transfer × List Digest),
      transfer.sign signer = .ok bytes → openTransfer ed bytes = .ok accepted →
        ∃ body, transfer.body = .ok body ∧
          (1 + 96 * signers.length + body.length ≤ maxDocumentLen →
            OrderIndependent transfer.sign (cosignTransfer ed) (openTransfer ed)
              (fun keys ↦ (transfer, keys)) (transcript .authorityTransfer body) signers)) := by
  constructor
  · intro request signer bytes accepted h haccepted
    obtain ⟨body, hbody, hdecode⟩ := request.decodeBody_of_accepted h haccepted
    have hsign : request.sign = signFirst .controlRequest body := by
      funext signer
      rw [ControlRequest.sign, hbody]
      rfl
    -- a body of a request is short, so the envelope has room for every signer
    have hlength := ControlRequest.length_body_le hbody
    refine ⟨body, hbody, ?_⟩
    rw [hsign, cosign_eq_signNext]
    refine orderIndependent (opens_request sha hdecode) hlawful hnodup hmax ?_
    rw [maxSigners] at hmax
    rw [maxDocumentLen]
    omega
  · intro transfer signer bytes accepted h _
    obtain ⟨body, hbody, hdecode⟩ := transfer.decodeBody_of_sign h
    have hsign : transfer.sign = signFirst .authorityTransfer body := by
      funext signer
      rw [Transfer.sign, hbody]
      rfl
    refine ⟨body, hbody, fun hfits ↦ ?_⟩
    rw [hsign, cosignTransfer_eq_signNext]
    exact orderIndependent (opens_transfer hdecode) hlawful hnodup hmax hfits

/-! ### Samples -/

/-- An intent to keep a mirror. -/
def sampleIntent : ControlRequest := { unreachableRequest with payload := .setDurability .mirrored }

/-- The body of the intent. -/
def intentBody : List UInt8 := sampleIntent.body.toOption.getD []

/-- The key of a second controller: that of the sample author. -/
def secondController : Digest := sampleAuthorKey

/-- The signature of the first controller. -/
def firstIntentSignature : Signature :=
  ⟨[0x73, 0x15, 0x0a, 0xea, 0x24, 0x7a, 0xc3, 0x10, 0x24, 0xab, 0xd8, 0xb8, 0xb6, 0x46, 0x59,
    0x26, 0xfe, 0x87, 0x6f, 0x9f, 0x6f, 0x42, 0x3c, 0x2c, 0xf9, 0xa4, 0xf9, 0xc7, 0x97, 0x34,
    0x3c, 0x27, 0x7b, 0x15, 0x4a, 0x8f, 0x35, 0x5a, 0xc8, 0xe7, 0x99, 0x86, 0x09, 0xa9, 0xec,
    0x17, 0xf1, 0xf0, 0xe2, 0xed, 0x7f, 0xdd, 0xf7, 0xe1, 0xca, 0xdb, 0x06, 0x58, 0xfc, 0xf6,
    0xab, 0xa3, 0x0e, 0x08], rfl⟩

/-- The signature of the second controller. -/
def secondIntentSignature : Signature :=
  ⟨[0x0f, 0x43, 0xc7, 0x46, 0x1f, 0x75, 0x28, 0x0f, 0xbd, 0x94, 0xef, 0xcc, 0x04, 0x12, 0xbd,
    0x69, 0xe0, 0x82, 0x1a, 0x52, 0x2c, 0x5b, 0x26, 0x36, 0x54, 0x73, 0xa3, 0xa8, 0xbe, 0x0d,
    0x11, 0xc6, 0xe5, 0x59, 0x9f, 0x70, 0xf4, 0x54, 0xfa, 0xc5, 0x43, 0x01, 0xe4, 0xe3, 0xbf,
    0xc8, 0x3e, 0xc3, 0x2a, 0xf1, 0xa3, 0xe4, 0x9b, 0xe9, 0x56, 0x92, 0xdb, 0x63, 0x32, 0x49,
    0x2c, 0x00, 0x8d, 0x02], rfl⟩

/-- What the signatures of the intent cover. -/
def intentMessage : List UInt8 := (transcript .controlRequest intentBody).asBytes

/-- The first controller, as far as the intent goes. -/
def firstSigner : Signer := recordedSigner requestController [(intentMessage, firstIntentSignature)]

/-- The second controller, as far as the intent goes. -/
def secondSigner : Signer := recordedSigner secondController [(intentMessage, secondIntentSignature)]

/-- Ed25519, as far as the intent goes. -/
def intentEd25519 : Ed25519 :=
  recordedEd25519 [(requestController, intentMessage, firstIntentSignature),
    (secondController, intentMessage, secondIntentSignature)]

/-- The fingerprint of the body. -/
def intentHash : Digest :=
  ⟨[0x0d, 0xb1, 0x9a, 0x93, 0xbd, 0xb5, 0x0e, 0x3b, 0x20, 0x66, 0x7d, 0x2f, 0xbe, 0x6f, 0xe8,
    0x4a, 0x09, 0xc7, 0xb9, 0x65, 0xcd, 0x87, 0x2f, 0x80, 0x90, 0x54, 0x4f, 0x34, 0xb7, 0x12,
    0x5b, 0x9b], rfl⟩

/-- SHA-256, as far as the intent goes. -/
def intentSha : Sha2 := ⟨fun _ ↦ intentHash, fun _ _ ↦ zeros 32, fun _ _ _ n ↦ zeros n⟩

theorem lawful_intentSigners : ∀ signer ∈ [firstSigner, secondSigner], signer.Lawful intentEd25519 :=
  List.forall_mem_cons.2 ⟨lawful_recordedSigner (by simp),
    List.forall_mem_singleton.2 (lawful_recordedSigner (by simp))⟩

/-- The intent under both signatures. -/
def intentDocument : List UInt8 :=
  envelope intentBody
    [(secondController, secondIntentSignature), (requestController, firstIntentSignature)]

/-- Two controllers sign an intent, in either order. -/
theorem signatures_order_independent_sampleIntent :
    collect sampleIntent.sign (cosign intentSha intentEd25519) firstSigner [secondSigner] =
        .ok intentDocument ∧
      collect sampleIntent.sign (cosign intentSha intentEd25519) secondSigner [firstSigner] =
        .ok intentDocument ∧
      ∃ e, cosign intentSha intentEd25519 intentDocument firstSigner = .error e := by
  have hsign : sampleIntent.sign firstSigner =
      .ok (1 :: (signatureBytes (requestController, firstIntentSignature) ++ intentBody)) := by
    decide +kernel
  have haccepted : openRequest intentSha intentEd25519
      (1 :: (signatureBytes (requestController, firstIntentSignature) ++ intentBody)) =
        .ok ⟨sampleIntent, intentHash, [requestController]⟩ := by
    decide +kernel
  have hcollect : collect sampleIntent.sign (cosign intentSha intentEd25519) firstSigner [secondSigner] =
      .ok intentDocument := by
    decide +kernel
  have hswap : [secondSigner, firstSigner].Perm [firstSigner, secondSigner] := .swap _ _ _
  obtain ⟨body, hbody, hcollects⟩ := (signatures_order_independent intentSha lawful_intentSigners
    (by decide +kernel) (by decide)).1 sampleIntent firstSigner _ _ hsign haccepted
  refine ⟨hcollect, (hcollects.same _ _ _ _ hswap (.refl _)).trans hcollect, ?_⟩
  exact hcollects.closed _ _ _ (.refl _) hcollect firstSigner (.inl List.mem_cons_self)

end Control

end OpenCrate.Protocol
