import OpenCrate.Protocol.ControlSigned
import OpenCrate.Protocol.SignedDocuments

/-!
# Parsers that pass over what they do not know

A parser is transparent if fields of unknown tags, merged into a body, change nothing where they are
optional and are fatal where they are critical. That follows from the form of its loop, for the records
that skip a field by hand (`Transparent.of_recordStep`) and for the documents that are compared with their
own encoding (`Transparent.of_canonicalStep`).

A signed document is signed again when its body changes. What it is read as may keep a trace of that: the
signature itself, or a hash of the body (`SignedTransparent`, `EnvelopeTransparent`).
-/

namespace OpenCrate.Protocol

open OpenCrate.Format OpenCrate.Crypto
open Except (refuseIf okOr)

/-- A body into which fields were merged, in the order of the tags, all of them of tags that a parser does
not know. -/
def Extends (known : List UInt16) (extra : Contents) (body body' : List UInt8) : Prop :=
  ∃ l l', Encodes body l ∧ Encodes body' l' ∧ Merged l extra l' ∧ ∀ p ∈ extra, p.1 ∉ known

/-- A parser passes over optional fields it does not know, as long as the body fits, and refuses critical
ones. -/
structure Transparent {α : Type} (known : List UInt16) (fits : List UInt8 → Prop)
    (parse : List UInt8 → Except FormatError α) : Prop where
  skips : ∀ {extra body body' a}, Extends known extra body body' → (∀ p ∈ extra, critTagMax < p.1) →
    fits body' → parse body = .ok a → parse body' = .ok a
  refuses : ∀ {extra body body' a}, Extends known extra body body' → (∃ p ∈ extra, p.1 ≤ critTagMax) →
    parse body' ≠ .ok a

section

variable {σ α : Type} {known : List UInt16} {extra : Contents} {body body' : List UInt8}

/-- A body without its unknown fields stays what it is. -/
theorem Carries.extend {written : List UInt8} (h : Carries known body written)
    (hext : Extends known extra body body') (hopt : ∀ p ∈ extra, critTagMax < p.1) :
    Carries known body' written := by
  obtain ⟨l, henc, hown, rfl⟩ := h
  obtain ⟨l₀, l', henc₀, henc', hmerged, hunknown⟩ := hext
  obtain rfl := henc₀.unique henc
  refine ⟨l', henc', ?_, ?_⟩
  · intro p hp hp'
    rcases hmerged.mem_iff.mp hp with hp | hp
    · exact hown p hp hp'
    · exact hopt p hp
  · have hnone : ∀ p ∈ extra, decide (p.1 ∈ known) = false := fun p hp ↦ decide_eq_false (hunknown p hp)
    rw [hmerged.filter_eq henc.increasing hnone]

/-- What was skipped is not critical. -/
theorem Carries.not_critical {written : List UInt8} (h : Carries known body' written)
    (hext : Extends known extra body body') : ¬∃ p ∈ extra, p.1 ≤ critTagMax := by
  rintro ⟨p, hp, hcritical⟩
  obtain ⟨l, henc, hown, -⟩ := h
  obtain ⟨_, l', -, henc', hmerged, hunknown⟩ := hext
  obtain rfl := henc'.unique henc
  exact absurd (hown p (hmerged.mem_iff.mpr (.inr hp)) (hunknown p hp)) (not_lt.mpr hcritical)

/-- **A record passes over unknown fields.** -/
theorem Transparent.of_recordStep {step : σ → Field → Except FormatError σ} (h : RecordStep known step)
    (init : σ) (finish : σ → Except FormatError α) :
    Transparent known (fun _ ↦ True)
      fun body ↦ TlvReader.foldFields step (TlvReader.new body) init >>= finish where
  skips := by
    intro extra body body' a hext hopt _ hparse
    obtain ⟨l, l', henc, henc', hmerged, hunknown⟩ := hext
    obtain ⟨acc, hacc, hfinish⟩ := Except.bind_eq_ok_iff.mp hparse
    rw [h.foldFields_eq henc] at hacc
    have hfold : l'.foldlM (readField step) init = .ok acc :=
      h.foldlM_merged henc.increasing hmerged (fun p hp ↦ ⟨hunknown p hp, hopt p hp⟩) hacc
    show TlvReader.foldFields step (TlvReader.new body') init >>= finish = .ok a
    rw [h.foldFields_eq henc', hfold, Except.ok_bind, hfinish]
  refuses := by
    intro extra body body' a hext hcritical hparse
    obtain ⟨_, l', -, henc', hmerged, hunknown⟩ := hext
    obtain ⟨p, hp, hcritical⟩ := hcritical
    obtain ⟨acc, hacc, -⟩ := Except.bind_eq_ok_iff.mp hparse
    rw [h.foldFields_eq henc'] at hacc
    have hoptional : critTagMax < p.1 :=
      h.optional_of_foldlM hacc p (hmerged.mem_iff.mpr (.inr hp)) (hunknown p hp)
    exact absurd hoptional (not_lt.mpr hcritical)

/-- **A canonical document passes over unknown fields.** They are cut out before the comparison. -/
theorem Transparent.of_canonicalStep {step : σ × Skipped → Field → Except FormatError (σ × Skipped)}
    (h : CanonicalStep known step) {init : σ} {build : σ → Except FormatError α}
    {write : α → Except FormatError (List UInt8)} {refusal : ℕ → FormatError} :
    Transparent known (fun _ ↦ True) (decodeCanonical step init build write refusal) where
  skips := by
    intro extra body body' a hext hopt _ hparse
    obtain ⟨written, l, acc, hcarries, hrest⟩ := h.decodeCanonical_eq_ok_iff.mp hparse
    exact h.decodeCanonical_eq_ok_iff.mpr ⟨written, l, acc, hcarries.extend hext hopt, hrest⟩
  refuses := by
    intro extra body body' a hext hcritical hparse
    obtain ⟨written, l, acc, hcarries, -⟩ := h.decodeCanonical_eq_ok_iff.mp hparse
    exact hcarries.not_critical hext hcritical

/-- A limit on the length comes before the parser. -/
theorem Transparent.limited {parse : List UInt8 → Except FormatError α}
    (h : Transparent known (fun _ ↦ True) parse) (limit : ℕ) (refusal : List UInt8 → FormatError) :
    Transparent known (fun body ↦ body.length ≤ limit) fun body ↦ do
      refuseIf (limit < body.length) (refusal body)
      parse body where
  skips := by
    intro extra body body' a hext hopt hfits hparse
    obtain ⟨-, hparse⟩ := Except.check_bind_eq_ok_iff.mp hparse
    exact Except.check_bind_eq_ok_iff.mpr
      ⟨Except.refuseIf_of_not (not_lt.mpr hfits) _, h.skips hext hopt trivial hparse⟩
  refuses := by
    intro extra body body' a hext hcritical hparse
    exact h.refuses hext hcritical (Except.check_bind_eq_ok_iff.mp hparse).2

end

/-! ### Signed documents -/

/-- The same for a document that stands behind its signature. The fields are merged into the body, and the
document is signed again; `resign` puts the new signature where the value keeps it. -/
structure SignedTransparent {α : Type} (ed : Ed25519) (known : List UInt16) (fits : List UInt8 → Prop)
    (transcript : List UInt8 → Transcript) (resign : Signature → α → α)
    (parse : List UInt8 → Digest → Except FormatError α) : Prop where
  skips : ∀ {extra body body' key a} {sig sig' : Signature}, Extends known extra body body' →
    (∀ p ∈ extra, critTagMax < p.1) → fits (sig'.toList ++ body') →
    verify ed key (transcript body') sig' = .ok () → parse (sig.toList ++ body) key = .ok a →
    parse (sig'.toList ++ body') key = .ok (resign sig' a)
  refuses : ∀ {extra body body' key a} {sig' : Signature}, Extends known extra body body' →
    (∃ p ∈ extra, p.1 ≤ critTagMax) → parse (sig'.toList ++ body') key ≠ .ok a

/-- A signature has a fixed length, so that it can be told from the body. -/
theorem eq_of_signature_append {sig sig' : Signature} {body body' : List UInt8}
    (h : sig.toList ++ body = sig'.toList ++ body') : sig = sig' ∧ body = body' := by
  obtain ⟨hsig, hbody⟩ := List.append_inj h (sig.toList_length.trans sig'.toList_length.symm)
  exact ⟨List.Vector.toList_injective hsig, hbody⟩

/-- A parser that splits off the signature, verifies it and reads the body. What follows the verification
may look at the key, and at the whole document again. -/
theorem SignedTransparent.of_verified {α : Type} {ed : Ed25519} {known : List UInt16}
    {fits : List UInt8 → Prop} {transcript : List UInt8 → Transcript} {resign : Signature → α → α}
    {split : List UInt8 → Except FormatError (Signature × List UInt8)}
    {k : List UInt8 → Digest → Signature → List UInt8 → Except FormatError α}
    (decodeBody : Signature → List UInt8 → Except FormatError α) (Named : Digest → α → Prop)
    (hsplit : ∀ {bytes sig body}, split bytes = .ok (sig, body) ↔
      bytes = sig.toList ++ body ∧ fits bytes)
    (hbody : ∀ sig, Transparent known (fun _ ↦ True) (decodeBody sig))
    (hk : ∀ {bytes key sig body a}, split bytes = .ok (sig, body) →
      (k bytes key sig body = .ok a ↔ decodeBody sig body = .ok a ∧ Named key a))
    (hresign : ∀ {sig sig' body a}, decodeBody sig body = .ok a →
      decodeBody sig' body = .ok (resign sig' a))
    (hnamed : ∀ {key sig a}, Named key a → Named key (resign sig a)) :
    SignedTransparent ed known fits transcript resign fun bytes key ↦ (do
      let (sig, body) ← split bytes
      (verify ed key (transcript body) sig).mapError fun _ ↦ FormatError.badHeaderSignature
      k bytes key sig body) where
  -- an optional field is signed, and passed over
  skips := by
    intro extra body body' key a sig sig' hext hopt hfits hvalid h
    obtain ⟨⟨sig₀, body₀⟩, hsplit₀, h⟩ := Except.bind_eq_ok_iff.mp h
    obtain ⟨rfl, rfl⟩ := eq_of_signature_append (hsplit.mp hsplit₀).1
    obtain ⟨hdecode, hkey⟩ := (hk hsplit₀).mp (Except.check_bind_eq_ok_iff.mp h).2
    have hsplit' : split (sig'.toList ++ body') = .ok (sig', body') := hsplit.mpr ⟨rfl, hfits⟩
    refine Except.bind_eq_ok_iff.mpr ⟨(sig', body'), hsplit', Except.check_bind_eq_ok_iff.mpr ⟨?_, ?_⟩⟩
    · exact Except.mapError_eq_ok_iff.mpr hvalid
    · exact (hk hsplit').mpr ⟨hresign ((hbody sig).skips hext hopt trivial hdecode), hnamed hkey⟩
  -- and a critical one is refused, signed or not
  refuses := by
    intro extra body body' key a sig' hext hcritical h
    obtain ⟨⟨sig₀, body₀⟩, hsplit₀, h⟩ := Except.bind_eq_ok_iff.mp h
    obtain ⟨rfl, rfl⟩ := eq_of_signature_append (hsplit.mp hsplit₀).1
    obtain ⟨hdecode, -⟩ := (hk hsplit₀).mp (Except.check_bind_eq_ok_iff.mp h).2
    exact (hbody sig').refuses hext hcritical hdecode

/-- The body names the key, and it must be the one that the signature was verified with. -/
theorem named_eq_ok_iff {α : Type} {x : Except FormatError α} {named : α → Digest} {key : Digest}
    {e : FormatError} {a : α} :
    (do
      let document ← x
      refuseIf (named document ≠ key) e
      .ok document) = .ok a ↔ x = .ok a ∧ named a = key := by
  simp only [Except.bind_eq_ok_iff, Except.refuseIf_eq_ok_iff, not_not]
  constructor
  · intro ⟨document, hx, _, hkey, h⟩
    obtain rfl := Except.ok.inj h
    exact ⟨hx, hkey⟩
  · intro ⟨hx, hkey⟩
    exact ⟨a, hx, (), hkey, rfl⟩

namespace Control

/-- The same for an envelope with several signatures. Signed again by its controllers, it is read as the
same document; `reseal` puts the signers and what depends on the body where the value keeps them. -/
structure EnvelopeTransparent {β : Type} (ed : Ed25519) (known : List UInt16) (label : Label)
    (reseal : List Digest → List UInt8 → β → β) (parse : List UInt8 → Except FormatError β) : Prop where
  skips : ∀ {extra body body' bytes bytes' signatures signatures' b}, Extends known extra body body' →
    (∀ p ∈ extra, critTagMax < p.1) → splitRequest bytes = .ok (signatures, body) →
    splitRequest bytes' = .ok (signatures', body') →
    (∀ s ∈ signatures', verify ed s.1 (transcript label body') s.2 = .ok ()) → parse bytes = .ok b →
    parse bytes' = .ok (reseal (signatures'.map Prod.fst) body' b)
  refuses : ∀ {extra body body' bytes' signatures' b}, Extends known extra body body' →
    (∃ p ∈ extra, p.1 ≤ critTagMax) → splitRequest bytes' = .ok (signatures', body') →
    parse bytes' ≠ .ok b

/-- **An envelope is transparent if the body in it is.** -/
theorem EnvelopeTransparent.of_body {α β : Type} {ed : Ed25519} {known : List UInt16} {label : Label}
    {reseal : List Digest → List UInt8 → β → β} {parse : List UInt8 → Except FormatError β}
    (decodeBody : List UInt8 → Except FormatError α) (value : β → α)
    (hparse : ∀ {bytes b}, parse bytes = .ok b ↔ ∃ signatures body,
      splitRequest bytes = .ok (signatures, body) ∧
        (∀ s ∈ signatures, verify ed s.1 (transcript label body) s.2 = .ok ()) ∧
        decodeBody body = .ok (value b) ∧ b = reseal (signatures.map Prod.fst) body b)
    (hbody : Transparent known (fun _ ↦ True) decodeBody)
    (hvalue : ∀ {keys body b}, value (reseal keys body b) = value b)
    (hreseal : ∀ {keys body b}, reseal keys body (reseal keys body b) = reseal keys body b) :
    EnvelopeTransparent ed known label reseal parse where
  skips := by
    intro extra body body' bytes bytes' signatures signatures' b hext hopt hsplit hsplit' hvalid h
    obtain ⟨signatures₀, body₀, hsplit₀, -, hdecode, -⟩ := hparse.mp h
    obtain ⟨rfl, rfl⟩ := Prod.mk.inj (Except.ok.inj (hsplit₀.symm.trans hsplit))
    refine hparse.mpr ⟨signatures', body', hsplit', hvalid, ?_, hreseal.symm⟩
    rw [hvalue]
    exact hbody.skips hext hopt trivial hdecode
  refuses := by
    intro extra body body' bytes' signatures' b hext hcritical hsplit' h
    obtain ⟨signatures₀, body₀, hsplit₀, -, hdecode, -⟩ := hparse.mp h
    obtain ⟨-, rfl⟩ := Prod.mk.inj (Except.ok.inj (hsplit₀.symm.trans hsplit'))
    exact hbody.refuses hext hcritical hdecode

end Control

end OpenCrate.Protocol
