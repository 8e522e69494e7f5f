import OpenCrate.Data.PrefixFree
import OpenCrate.Format.Edit
import OpenCrate.Format.TlvRecord

/-!
# What an editor's signature covers

The editor signs the body of the mutable region without the record of the signature, which stands inside the
editor's record: the outer length still counts it, and optional fields may follow it. Still nothing else is
left out, and the place of what was cut is not lost: two bodies are signed alike if and only if they are
equal outside the value of the signature (`bodyWithoutSignature_eq_iff`).

A body is read from the front. Up to the editor's record, and inside it up to the signature, the fields are
recognised by their tags, which increase; so what stays of a body is read in one way only
(`encodeContents_append_inj`).
-/

namespace OpenCrate.Format

open Crypto
open Except (refuseIf okOr)

/-! ### Documents cut at a tag -/

/-- The fields before and behind a field have smaller and greater tags. -/
theorem Encodes.exists_split {bytes : List UInt8} {l : Contents} {p : UInt16 × List UInt8}
    (h : Encodes bytes l) (hp : p ∈ l) :
    ∃ pre post, l = pre ++ p :: post ∧ (∀ q ∈ pre, q.1 < p.1) ∧ ∀ q ∈ post, p.1 < q.1 := by
  have htags := h.increasing
  obtain ⟨pre, post, rfl⟩ := List.append_of_mem hp
  rw [List.map_append, List.map_cons, List.pairwise_append, List.pairwise_cons] at htags
  obtain ⟨-, ⟨hpost, -⟩, hpre⟩ := htags
  refine ⟨pre, post, rfl, fun q hq ↦ ?_, fun q hq ↦ ?_⟩
  · exact hpre q.1 (List.mem_map_of_mem hq) p.1 List.mem_cons_self
  · exact hpost q.1 (List.mem_map_of_mem hq)

/-- Fields with tags below a given one are read off the front of bytes that go on with that tag. -/
theorem encodeContents_append_inj {tag : UInt16} {l l' : Contents} {rest rest' : List UInt8}
    (hl : ∀ p ∈ l, p.1 < tag ∧ p.2.length < 2 ^ 32) (hl' : ∀ p ∈ l', p.1 < tag ∧ p.2.length < 2 ^ 32)
    (h : encodeContents l ++ (toLeBytes tag ++ rest) = encodeContents l' ++ (toLeBytes tag ++ rest')) :
    l = l' ∧ rest = rest' := by
  have hcons (p : UInt16 × List UInt8) (l : Contents) (rest : List UInt8) :
      encodeContents (p :: l) ++ rest = toLeBytes p.1 ++
        (toLeBytes (UInt32.ofNat p.2.length) ++ (p.2 ++ (encodeContents l ++ rest))) := by
    simp only [encodeContents, List.flatMap_cons, List.append_assoc]
  have htag {t t' : UInt16} {a b : List UInt8} (h : toLeBytes t ++ a = toLeBytes t' ++ b) :
      t = t' ∧ a = b := by
    obtain ⟨htag, hrest⟩ := List.append_inj h ((length_toLeBytes t).trans (length_toLeBytes t').symm)
    exact ⟨toLeBytes_injective htag, hrest⟩
  -- by induction on the records before the tag; a list that ends first would have to show the tag itself
  induction l generalizing l' with
  | nil =>
    cases l' with
    | nil => exact ⟨rfl, (htag h).2⟩
    | cons p l' =>
      rw [hcons] at h
      exact absurd (htag h).1 (hl' p List.mem_cons_self).1.ne'
  | cons p l ih =>
    obtain ⟨hp, hl⟩ := List.forall_mem_cons.mp hl
    cases l' with
    | nil =>
      rw [hcons] at h
      exact absurd (htag h).1 hp.1.ne
    | cons p' l' =>
      obtain ⟨hp', hl'⟩ := List.forall_mem_cons.mp hl'
      rw [hcons, hcons] at h
      obtain ⟨hfst, h⟩ := htag h
      obtain ⟨hlength, h⟩ := List.append_inj h ((length_toLeBytes _).trans (length_toLeBytes _).symm)
      have hlength : p.2.length = p'.2.length := by
        have hnat := congrArg UInt32.toNat (toLeBytes_injective hlength)
        rwa [UInt32.toNat_ofNat_of_lt' hp.2, UInt32.toNat_ofNat_of_lt' hp'.2] at hnat
      obtain ⟨hsnd, h⟩ := List.append_inj h hlength
      obtain ⟨rfl, hrest⟩ := ih hl hl' h
      exact ⟨by rw [Prod.ext hfst hsnd], hrest⟩

/-- The first field with a tag among fields of smaller and greater tags. -/
theorem find?_fieldsOf {offset : ℕ} {pre post : Contents} {p : UInt16 × List UInt8}
    (hpre : ∀ q ∈ pre, q.1 < p.1) :
    (fieldsOf offset (pre ++ p :: post)).find? (fun f ↦ f.tag = p.1) =
      some ⟨p.1, p.2, ⟨offset + encodedLength pre + fieldPrefixLen,
        offset + encodedLength pre + fieldPrefixLen + p.2.length⟩⟩ := by
  have hnone : (fieldsOf offset pre).find? (fun f ↦ f.tag = p.1) = none := by
    refine List.find?_eq_none.mpr fun f hf ↦ ?_
    have hlt := hpre _ (mem_of_mem_fieldsOf hf)
    simpa using hlt.ne
  rw [fieldsOf_append, List.find?_append, hnone, Option.none_or, fieldsOf, List.find?_cons]
  simp

/-! ### A body with a signature in it -/

/-- Where the value of the signature begins in a body. -/
def signatureStart (body : List UInt8) : Except FormatError ℕ := do
  let field ← TlvReader.findField ContentTag.editor (TlvReader.new body)
  let field ← okOr field (.missingField ContentTag.editor)
  let sub ← TlvReader.findField EditorTag.signature (TlvReader.new field.value)
  let sub ← okOr sub (.missingField EditorTag.signature)
  .ok (field.span.start + sub.span.start)

/-- The fields of a body with a signature: those around the editor's record, and those of the record around
the signature. -/
structure SignedBody where
  outerPre : Contents
  outerPost : Contents
  innerPre : Contents
  innerPost : Contents
  signature : List UInt8
  outerPre_lt : ∀ p ∈ outerPre, p.1 < ContentTag.editor
  innerPre_lt : ∀ p ∈ innerPre, p.1 < EditorTag.signature
  innerPost_gt : ∀ p ∈ innerPost, EditorTag.signature < p.1
  signature_length : signature.length = editorSignatureLen
  inner : Encodes (encodeContents (innerPre ++ (EditorTag.signature, signature) :: innerPost))
    (innerPre ++ (EditorTag.signature, signature) :: innerPost)
  outer : ∃ bytes, Encodes bytes (outerPre ++
    (ContentTag.editor, encodeContents (innerPre ++ (EditorTag.signature, signature) :: innerPost)) ::
      outerPost)

namespace SignedBody

/-- The editor's record. -/
def record (s : SignedBody) : List UInt8 :=
  encodeContents (s.innerPre ++ (EditorTag.signature, s.signature) :: s.innerPost)

/-- The body. -/
def body (s : SignedBody) : List UInt8 :=
  encodeContents (s.outerPre ++ (ContentTag.editor, s.record) :: s.outerPost)

/-- The body with the record in it is an encoding. -/
theorem encodes_body (s : SignedBody) :
    Encodes s.body (s.outerPre ++ (ContentTag.editor, s.record) :: s.outerPost) := by
  obtain ⟨bytes, h⟩ := s.outer
  rw [h.eq_encodeContents] at h
  exact h

/-- What stands before the record of the signature. -/
def before (s : SignedBody) : List UInt8 :=
  encodeContents s.outerPre ++ (toLeBytes ContentTag.editor ++
    (toLeBytes (UInt32.ofNat s.record.length) ++ encodeContents s.innerPre))

/-- What stands behind it. -/
def after (s : SignedBody) : List UInt8 := encodeContents s.innerPost ++ encodeContents s.outerPost

/-- The tag and the length of the signature. -/
def signaturePrefix : List UInt8 :=
  toLeBytes EditorTag.signature ++ toLeBytes (UInt32.ofNat editorSignatureLen)

/-- Where the value of the signature begins. -/
def start (s : SignedBody) : ℕ := s.before.length + fieldPrefixLen

/-- The signature stands in the body between two parts that do not depend on it. -/
theorem body_eq (s : SignedBody) : s.body = s.before ++ (signaturePrefix ++ (s.signature ++ s.after)) := by
  have hcons (p : UInt16 × List UInt8) (l : Contents) : encodeContents (p :: l) =
      toLeBytes p.1 ++ (toLeBytes (UInt32.ofNat p.2.length) ++ (p.2 ++ encodeContents l)) := by
    simp only [encodeContents, List.flatMap_cons, List.append_assoc]
  have hrecord : s.record = encodeContents s.innerPre ++
      (signaturePrefix ++ (s.signature ++ encodeContents s.innerPost)) := by
    rw [record, encodeContents_append, hcons, s.signature_length, signaturePrefix, List.append_assoc]
  rw [body, encodeContents_append, hcons, before, after]
  simp only [List.append_assoc]
  nth_rewrite 2 [hrecord]
  simp only [List.append_assoc]

theorem length_record (s : SignedBody) :
    s.record.length = encodedLength s.innerPre + fieldPrefixLen + editorSignatureLen +
      encodedLength s.innerPost := by
  rw [record, length_encodeContents, encodedLength_append, encodedLength_cons, s.signature_length]
  omega

/-- The reader finds the record, and the signature in it. -/
theorem findField_editor (s : SignedBody) :
    TlvReader.findField ContentTag.editor (TlvReader.new s.body) =
      .ok (some ⟨ContentTag.editor, s.record, ⟨encodedLength s.outerPre + fieldPrefixLen,
        encodedLength s.outerPre + fieldPrefixLen + s.record.length⟩⟩) := by
  have hfind := @find?_fieldsOf 0 s.outerPre s.outerPost (ContentTag.editor, s.record) s.outerPre_lt
  rw [s.encodes_body.findField, hfind, Nat.zero_add]

/-- The reader finds the signature in the record. -/
theorem findField_signature (s : SignedBody) :
    TlvReader.findField EditorTag.signature (TlvReader.new s.record) =
      .ok (some ⟨EditorTag.signature, s.signature, ⟨encodedLength s.innerPre + fieldPrefixLen,
        encodedLength s.innerPre + fieldPrefixLen + s.signature.length⟩⟩) := by
  have hfind := @find?_fieldsOf 0 s.innerPre s.innerPost (EditorTag.signature, s.signature) s.innerPre_lt
  rw [record, s.inner.findField, hfind, Nat.zero_add]

theorem length_before (s : SignedBody) :
    s.before.length = encodedLength s.outerPre + fieldPrefixLen + encodedLength s.innerPre := by
  simp only [before, List.length_append, length_encodeContents, length_toLeBytes, LeInt.width_uint16,
    LeInt.width_uint32, fieldPrefixLen]
  omega

/-- It finds the signature in the body, too, at its offset. -/
theorem signatureStart_body (s : SignedBody) : signatureStart s.body = .ok s.start := by
  rw [signatureStart, s.findField_editor]
  simp only [Except.ok_bind, Except.okOr_some, s.findField_signature, start, s.length_before,
    Except.ok.injEq]
  omega

/-- **What is signed of a body.** Everything but the record of the signature. -/
theorem bodyWithoutSignature_body (s : SignedBody) :
    bodyWithoutSignature s.body = .ok (s.before ++ s.after) := by
  have hprefix : signaturePrefix.length = fieldPrefixLen := rfl
  have hstop : s.before.length + (fieldPrefixLen + s.signature.length) + s.after.length =
      s.body.length := by
    simp only [s.body_eq, List.length_append, hprefix]
    omega
  have hbefore : slice? s.body 0 s.before.length = some s.before := by
    rw [s.body_eq]
    simpa using slice?_append [] s.before (signaturePrefix ++ (s.signature ++ s.after))
  have hafter : slice? s.body (s.before.length + (fieldPrefixLen + s.signature.length)) s.body.length =
      some s.after := by
    have hslice := slice?_append (s.before ++ (signaturePrefix ++ s.signature)) s.after []
    simp only [List.length_append, hprefix, List.append_nil, List.append_assoc, ← s.body_eq] at hslice
    rwa [hstop] at hslice
  rw [bodyWithoutSignature, s.findField_editor]
  simp only [Except.ok_bind, Except.okOr_some, s.findField_signature]
  -- the cut starts at the prefix of the signature, and ends behind it
  have hcut : encodedLength s.outerPre + fieldPrefixLen + (encodedLength s.innerPre + fieldPrefixLen) -
      fieldPrefixLen = s.before.length := by
    rw [s.length_before]
    omega
  have hend : encodedLength s.outerPre + fieldPrefixLen +
      (encodedLength s.innerPre + fieldPrefixLen + s.signature.length) =
        s.before.length + (fieldPrefixLen + s.signature.length) := by
    rw [s.length_before]
    omega
  rw [Except.refuseIf_of_not (by omega), Except.ok_bind, hcut, hend, hbefore, hafter]
  rfl

/-- **What stays of a body is read in one way.** Two bodies of which the same is signed differ in nothing else
than their signatures. -/
theorem parts_eq_of_signed_eq {s t : SignedBody} (h : s.before ++ s.after = t.before ++ t.after) :
    s.before = t.before ∧ s.after = t.after := by
  have hfits {l : Contents} {bytes : List UInt8} (henc : Encodes bytes l) : ∀ p ∈ l, p.2.length < 2 ^ 32 :=
    henc.fits
  have hshort (s : SignedBody) : ∀ p ∈ s.outerPre, p.1 < ContentTag.editor ∧ p.2.length < 2 ^ 32 :=
    fun p hp ↦ ⟨s.outerPre_lt p hp, hfits s.encodes_body p (List.mem_append_left _ hp)⟩
  have hrecord (s : SignedBody) : s.record.length < 2 ^ 32 :=
    hfits s.encodes_body (ContentTag.editor, s.record) (List.mem_append_right _ List.mem_cons_self)
  simp only [before, List.append_assoc] at h
  -- up to the editor's record the fields are recognised by their tags
  obtain ⟨houter, h⟩ := encodeContents_append_inj (hshort s) (hshort t) h
  obtain ⟨hlength, h⟩ := List.append_inj h ((length_toLeBytes _).trans (length_toLeBytes _).symm)
  have hlength : s.record.length = t.record.length := by
    have hnat := congrArg UInt32.toNat (toLeBytes_injective hlength)
    rwa [UInt32.toNat_ofNat_of_lt' (hrecord s), UInt32.toNat_ofNat_of_lt' (hrecord t)] at hnat
  -- the length of the record says where its other fields end
  have hafter (s : SignedBody) : encodeContents s.innerPre ++ s.after =
      encodeContents (s.innerPre ++ s.innerPost) ++ encodeContents s.outerPost := by
    rw [after, encodeContents_append, List.append_assoc]
  rw [hafter s, hafter t] at h
  obtain ⟨hinner, hpost⟩ := List.append_inj h (by
    have hs := s.length_record
    have ht := t.length_record
    simp only [length_encodeContents, encodedLength_append]
    omega)
  have hsub (s : SignedBody) : (s.innerPre ++ s.innerPost).Sublist
      (s.innerPre ++ (EditorTag.signature, s.signature) :: s.innerPost) :=
    (List.Sublist.refl _).append (List.sublist_cons_self _ _)
  have hunique : s.innerPre ++ s.innerPost = t.innerPre ++ t.innerPost := by
    have hs := s.inner.of_sublist (hsub s)
    rw [hinner] at hs
    exact hs.unique (t.inner.of_sublist (hsub t))
  -- and the signature stood where the tags pass its own
  have hpre (s : SignedBody) :
      (s.innerPre ++ s.innerPost).filter (fun p ↦ p.1 < EditorTag.signature) = s.innerPre := by
    rw [List.filter_append, List.filter_eq_self.mpr fun p hp ↦ decide_eq_true (s.innerPre_lt p hp),
      List.filter_eq_nil_iff.mpr fun p hp ↦ ?_, List.append_nil]
    simpa using (s.innerPost_gt p hp).le
  have hpre : s.innerPre = t.innerPre := by rw [← hpre s, hunique, hpre t]
  have hpost' : s.innerPost = t.innerPost := List.append_cancel_left (hpre ▸ hunique)
  exact ⟨by rw [before, before, houter, hlength, hpre], by rw [after, after, hpost', hpost]⟩

end SignedBody

/-! ### Bodies that are accepted -/

/-- The record that is accepted holds a signature of the right length. -/
theorem exists_signature_of_decode {record : List UInt8} {e : EditorSignature}
    (h : EditorSignature.decode record = .ok e) :
    ∃ l, Encodes record l ∧ (EditorTag.signature, e.signature) ∈ l ∧
      e.signature.length = editorSignatureLen := by
  obtain ⟨acc, hloop, h⟩ := Except.bind_eq_ok_iff.mp h
  obtain ⟨l, henc, hfold⟩ := exists_encodes_of_foldFields hloop
  have hread : ∀ signature ∈ acc.signature, (EditorTag.signature, signature) ∈ l ∧
      signature.length = editorSignatureLen := by
    refine Except.foldlM_invariant (P := fun acc ↦ ∀ signature ∈ acc.signature,
      (EditorTag.signature, signature) ∈ l ∧ signature.length = editorSignatureLen) hfold nofun ?_
    intro f hf acc acc' hacc hstep
    have hmem := mem_of_mem_fieldsOf hf
    unfold EditorSignature.decodeStep at hstep
    split at hstep
    case h_5 htag =>
      obtain ⟨hlength, hstep⟩ := Except.check_bind_eq_ok_iff.mp hstep
      obtain rfl := Except.ok.inj hstep
      rintro _ ⟨⟩
      rw [htag] at hmem
      exact ⟨hmem, not_not.mp (Except.refuseIf_eq_ok_iff.mp hlength)⟩
    case h_6 => exact eq_of_skipUnknown hstep ▸ hacc
    all_goals
      simp only [Except.bind_eq_ok_iff, Except.ok.injEq] at hstep
      grind
  simp only [Except.bind_eq_ok_iff, Except.okOr_eq_ok_iff, Except.ok.injEq] at h
  obtain ⟨_, -, _, -, _, -, _, -, signature, hsignature, rfl⟩ := h
  exact ⟨l, henc, hread signature hsignature⟩

/-- The body that is accepted with an editor's record holds it. -/
theorem exists_editor_of_decodeBody {body : List UInt8} {version : UInt16} {d : ContentDesc}
    {e : EditorSignature} (h : d.editor = some e) (hd : ContentDesc.decodeBody body version = .ok d) :
    ∃ l record, Encodes body l ∧ (ContentTag.editor, record) ∈ l ∧ EditorSignature.decode record = .ok e := by
  obtain ⟨acc, hloop, hrest⟩ := Except.bind_eq_ok_iff.mp hd
  obtain ⟨l, henc, hfold⟩ := exists_encodes_of_foldFields hloop
  -- an invariant of the loop: the editor that was read came from a record
  have hread : ∀ e ∈ acc.editor, ∃ record, (ContentTag.editor, record) ∈ l ∧
      EditorSignature.decode record = .ok e := by
    refine Except.foldlM_invariant (P := fun acc ↦ ∀ e ∈ acc.editor, ∃ record,
      (ContentTag.editor, record) ∈ l ∧ EditorSignature.decode record = .ok e) hfold nofun ?_
    intro f hf acc acc' hacc hstep
    have hmem := mem_of_mem_fieldsOf hf
    unfold ContentDesc.decodeStep at hstep
    split at hstep
    case h_6 htag =>
      split_ifs at hstep
      · obtain ⟨v, hv, rfl⟩ := Except.map_eq_ok_iff.mp hstep
        rintro _ ⟨⟩
        rw [htag] at hmem
        exact ⟨f.value, hmem, hv⟩
      · exact eq_of_skipUnknown hstep ▸ hacc
    case h_7 => exact eq_of_skipUnknown hstep ▸ hacc
    all_goals
      obtain ⟨v, -, rfl⟩ := Except.map_eq_ok_iff.mp hstep
      exact hacc
  simp only [Except.bind_eq_ok_iff, Except.okOr_eq_ok_iff, Except.ok.injEq] at hrest
  obtain ⟨_, -, _, -, _, -, _, -, _, -, rfl⟩ := hrest
  obtain ⟨record, hmem, hrecord⟩ := hread e h
  exact ⟨l, record, henc, hmem, hrecord⟩

/-- An accepted body with an editor's record is one with a signature in it. -/
theorem exists_signedBody {body : List UInt8} {version : UInt16} {d : ContentDesc}
    (h : d.editor.isSome = true) (hd : ContentDesc.decodeBody body version = .ok d) :
    ∃ s : SignedBody, s.body = body := by
  obtain ⟨e, he⟩ := Option.isSome_iff_exists.mp h
  obtain ⟨l, record, henc, hmem, hrecord⟩ := exists_editor_of_decodeBody he hd
  obtain ⟨m, hinner, hsignature, hlength⟩ := exists_signature_of_decode hrecord
  obtain ⟨pre, post, rfl, hpre, -⟩ := henc.exists_split hmem
  obtain ⟨innerPre, innerPost, rfl, hinnerPre, hinnerPost⟩ := hinner.exists_split hsignature
  obtain rfl := hinner.eq_encodeContents
  exact ⟨⟨pre, post, innerPre, innerPost, e.signature, hpre, hinnerPre, hinnerPost, hlength, hinner,
    ⟨body, henc⟩⟩, henc.eq_encodeContents.symm⟩

/-! ### What two bodies share -/

/-- The bodies are equal outside the value of the signature, which stands in one place in both. -/
def EqualOutsideSignature (b₁ b₂ : List UInt8) : Prop :=
  b₁.length = b₂.length ∧ ∃ start, signatureStart b₁ = .ok start ∧ signatureStart b₂ = .ok start ∧
    b₁.take start = b₂.take start ∧
    b₁.drop (start + editorSignatureLen) = b₂.drop (start + editorSignatureLen)

namespace SignedBody

theorem length_start (s : SignedBody) : (s.before ++ signaturePrefix).length = s.start := by
  rw [List.length_append]
  rfl

theorem take_body (s : SignedBody) : s.body.take s.start = s.before ++ signaturePrefix := by
  rw [s.body_eq, ← List.append_assoc, ← s.length_start, List.take_left]

theorem drop_body (s : SignedBody) : s.body.drop (s.start + editorSignatureLen) = s.after := by
  rw [s.body_eq, ← List.append_assoc, ← s.length_start, ← List.drop_drop, List.drop_left,
    ← s.signature_length, List.drop_left]

theorem length_body (s : SignedBody) : s.body.length = s.start + editorSignatureLen + s.after.length := by
  rw [s.body_eq, ← List.append_assoc, List.length_append, s.length_start, List.length_append,
    s.signature_length, Nat.add_assoc]

/-- The same is signed of two bodies if and only if they are equal outside the signature. -/
theorem signed_eq_iff {s t : SignedBody} :
    s.before ++ s.after = t.before ++ t.after ↔ EqualOutsideSignature s.body t.body := by
  constructor
  · intro h
    obtain ⟨hbefore, hafter⟩ := parts_eq_of_signed_eq h
    have hstart : t.start = s.start := by rw [start, start, hbefore]
    have htake := t.take_body
    have hdrop := t.drop_body
    rw [hstart] at htake hdrop
    refine ⟨?_, s.start, s.signatureStart_body, hstart ▸ t.signatureStart_body, ?_, ?_⟩
    · rw [s.length_body, t.length_body, hstart, hafter]
    · rw [s.take_body, htake, hbefore]
    · rw [s.drop_body, hdrop, hafter]
  · rintro ⟨-, start, hs, ht, htake, hdrop⟩
    obtain rfl : s.start = start := Except.ok.inj (s.signatureStart_body.symm.trans hs)
    have hstart : t.start = s.start := Except.ok.inj (t.signatureStart_body.symm.trans ht)
    have hbefore : s.before ++ signaturePrefix = t.before ++ signaturePrefix := by
      rw [← s.take_body, htake, ← hstart, t.take_body]
    have hafter : s.after = t.after := by rw [← s.drop_body, hdrop, ← hstart, t.drop_body]
    rw [List.append_cancel_right hbefore, hafter]

end SignedBody

/-! ### The draft and the finished body -/

/-- The body of a draft is written when the finished one is. -/
theorem exists_draft {d : ContentDesc} {e : EditorSignature} {signature finished : List UInt8}
    {version : UInt16} (hlength : signature.length = editorSignatureLen)
    (h : { d with editor := some e }.encodeBody version = .ok finished) :
    ∃ draft, { d with editor := some { e with signature := signature } }.encodeBody version =
      .ok draft := by
  obtain ⟨hversion, editor, heditor, hbody⟩ := ContentDesc.encodeBody_eq_ok_iff.mp h
  obtain ⟨record, hrecord, rfl⟩ := Except.map_eq_ok_iff.mp heditor
  obtain ⟨hfinished, hcertified, hinner⟩ := EditorSignature.encode_eq_ok_iff.mp hrecord
  obtain ⟨htags, hfits⟩ := Encodes.exists_iff.mp ⟨_, hinner⟩
  -- the record of the draft is as long as that of the finished body
  obtain ⟨record', hinner'⟩ : ∃ record', Encodes record'
      { e with signature := signature }.contents := by
    refine Encodes.exists_iff.mpr ⟨htags, ?_⟩
    rw [EditorSignature.contents_eq, List.forall_mem_append] at hfits ⊢
    refine ⟨hfits.1, List.forall_mem_singleton.mpr ?_⟩
    rw [hlength]
    decide
  have hrecord' : record'.length = record.length := by
    rw [hinner'.length_eq, hinner.length_eq, EditorSignature.contents_eq, EditorSignature.contents_eq,
      encodedLength_append, encodedLength_append, encodedLength_cons, encodedLength_cons, hfinished,
      hlength]
    rfl
  obtain ⟨htags, hfits⟩ := Encodes.exists_iff.mp ⟨_, hbody⟩
  obtain ⟨draft, hdraft⟩ : ∃ draft, Encodes draft (d.contents (some record')) := by
    refine Encodes.exists_iff.mpr ⟨?_, ?_⟩
    · rw [ContentDesc.contents, List.map_append] at htags ⊢
      exact htags
    · rw [ContentDesc.contents, optField_some, List.forall_mem_append] at hfits ⊢
      refine ⟨hfits.1, List.forall_mem_singleton.mpr ?_⟩
      rw [hrecord']
      exact hfits.2 (ContentTag.editor, record) (List.mem_singleton_self _)
  refine ⟨draft, ContentDesc.encodeBody_eq_ok_iff.mpr ⟨hversion, some record', ?_, hdraft⟩⟩
  exact Except.map_eq_ok_iff.mpr ⟨record', EditorSignature.encode_eq_ok_iff.mpr
    ⟨hlength, hcertified, hinner'⟩, rfl⟩

/-- **The signature covers everything but itself.** Of two accepted bodies with an editor's record the same is
signed if and only if they are equal outside the value of the signature; and the transcript of a draft with a
zero signature is the transcript of the finished body. -/
theorem bodyWithoutSignature_eq_iff {version : UInt16} {b₁ b₂ : List UInt8} {d₁ d₂ : ContentDesc}
    (h₁ : ContentDesc.decodeBody b₁ version = .ok d₁) (h₂ : ContentDesc.decodeBody b₂ version = .ok d₂)
    (he₁ : d₁.editor.isSome = true) (he₂ : d₂.editor.isSome = true) :
    (∃ kept₁ kept₂, bodyWithoutSignature b₁ = .ok kept₁ ∧ bodyWithoutSignature b₂ = .ok kept₂ ∧
        (kept₁ = kept₂ ↔ EqualOutsideSignature b₁ b₂)) ∧
      ∀ (d : ContentDesc) (sessionHead : Digest) (journalHead : Option JournalHead)
        (certifiedBy signature finished : List UInt8) (coreHash : Digest),
        { d with editor := some { unsignedEditor sessionHead journalHead certifiedBy with
          signature := signature } }.encodeBody version = .ok finished →
        ∃ draft transcript, { d with editor := some (unsignedEditor sessionHead journalHead
            certifiedBy) }.encodeBody version = .ok draft ∧
          editorTranscript coreHash draft = .ok transcript ∧
          editorTranscript coreHash finished = .ok transcript := by
  constructor
  · obtain ⟨s, rfl⟩ := exists_signedBody he₁ h₁
    obtain ⟨t, rfl⟩ := exists_signedBody he₂ h₂
    exact ⟨_, _, s.bodyWithoutSignature_body, t.bodyWithoutSignature_body, SignedBody.signed_eq_iff⟩
  · intro d sessionHead journalHead certifiedBy signature finished coreHash hfinished
    -- the draft has zeros where the signature will stand
    obtain ⟨draft, hdraft⟩ := exists_draft (List.length_replicate (n := Rsa.modulusLen) (a := 0))
      hfinished
    obtain ⟨kept, hkept, hkept'⟩ : ∃ kept, bodyWithoutSignature draft = .ok kept ∧
        bodyWithoutSignature finished = .ok kept := by
      have hkept := bodyWithoutSignature_encodeBody rfl hdraft
      have hkept' := bodyWithoutSignature_encodeBody rfl hfinished
      exact ⟨_, hkept, hkept'⟩
    refine ⟨draft, ((Transcript.new .editorSig).fixed coreHash.toList).field kept, hdraft, ?_, ?_⟩
    · rw [editorTranscript, hkept]
      rfl
    · rw [editorTranscript, hkept']
      rfl

/-- A body of one chunk, with an editor's record. -/
def editedBody (signature : List.Vector UInt8 256) : ContentDesc :=
  ⟨1, 1, List.Vector.replicate 32 7, 3, none,
    some { unsignedEditor (List.Vector.replicate 32 9) none [] with signature := signature.toList }⟩

theorem exists_encodeBody_editedBody (signature : List.Vector UInt8 256) :
    ∃ body, (editedBody signature).encodeBody 4 = .ok body ∧
      ContentDesc.decodeBody body 4 = .ok (editedBody signature) := by
  have hlength : signature.toList.length = editorSignatureLen := signature.toList_length
  let e : EditorSignature := { unsignedEditor (List.Vector.replicate 32 9) none [] with
    signature := signature.toList }
  obtain ⟨record, hinner, hshort⟩ : ∃ record, Encodes record e.contents ∧ record.length < 2 ^ 32 := by
    refine Encodes.exists_of_short (show [1, 2, 3, 4, 5].Pairwise (· < ·) by decide) ?_
    simp only [e, EditorSignature.contents, unsignedEditor, journalHeadValue, hlength,
      encodedLength_cons, encodedLength_nil, List.Vector.toList_length]
    decide
  obtain ⟨body, hbody⟩ : ∃ body, Encodes body ((editedBody signature).contents (some record)) := by
    refine Encodes.exists_iff.mpr ⟨show [1, 2, 3, 4, 6].Pairwise (· < ·) by decide, ?_⟩
    have hshort : record.length < 4294967296 := hshort
    simpa [ContentDesc.contents, ContentDesc.commonContents, editedBody, length_toLeBytes] using hshort
  have hencode : (editedBody signature).encodeBody 4 = .ok body := by
    refine ContentDesc.encodeBody_eq_ok_iff.mpr ⟨fun _ ↦ by decide, some record, ?_, hbody⟩
    exact Except.map_eq_ok_iff.mpr ⟨record, EditorSignature.encode_eq_ok_iff.mpr
      ⟨hlength, Nat.zero_le _, hinner⟩, rfl⟩
  refine ⟨body, hencode, (ContentDesc.decodeBody_encodeBody_iff hencode ?_).mpr ⟨?_, rfl⟩⟩
  · exact show (1 : UInt32) ≠ 0 by decide
  · rintro _ ⟨⟩
    rfl

theorem bodyWithoutSignature_eq_iff_editedBody : ∃ b₁ b₂,
    (editedBody (List.Vector.replicate 256 0)).encodeBody 4 = .ok b₁ ∧
      (editedBody (List.Vector.replicate 256 1)).encodeBody 4 = .ok b₂ ∧
      ∃ kept₁ kept₂, bodyWithoutSignature b₁ = .ok kept₁ ∧ bodyWithoutSignature b₂ = .ok kept₂ ∧
        (kept₁ = kept₂ ↔ EqualOutsideSignature b₁ b₂) := by
  obtain ⟨b₁, hb₁, h₁⟩ := exists_encodeBody_editedBody (List.Vector.replicate 256 0)
  obtain ⟨b₂, hb₂, h₂⟩ := exists_encodeBody_editedBody (List.Vector.replicate 256 1)
  exact ⟨b₁, b₂, hb₁, hb₂, (bodyWithoutSignature_eq_iff h₁ h₂ rfl rfl).1⟩

end OpenCrate.Format
