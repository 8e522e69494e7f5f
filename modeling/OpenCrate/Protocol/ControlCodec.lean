import OpenCrate.Protocol.ControlDocuments
import Mathlib.Algebra.Order.BigOperators.Group.List

/-!
# The codec of control documents

What each writer of `control` writes and each reader reads. Keys are checked alike on both sides, and
so are reasons and names; addresses are not: the reader refuses a repeated address, the writer writes
it (`encodeUrls_eq_ok_iff`, `decodeUrls_eq_ok_iff`).
-/

namespace OpenCrate.Protocol

open OpenCrate.Format OpenCrate.Crypto
open Except (refuseIf okOr)

namespace Control

/-! ### Addresses -/

/-- An address as it is written: its length and its bytes. -/
def urlBytes (url : String) : List UInt8 := toLeBytes (UInt16.ofNat (utf8 url).length) ++ utf8 url

theorem length_le_of_checkUrl {url : String} {tag : UInt16} (h : checkUrl url tag = .ok ()) :
    (utf8 url).length ≤ maxUrlLen :=
  (not_not.mp (Except.refuseIf_eq_ok_iff.mp h)).2.1

/-- An address is written behind the others, if it passes the check. -/
theorem encodeUrl_eq_ok_iff {tag : UInt16} {out out' : List UInt8} {url : String} :
    encodeUrl tag out url = .ok out' ↔ checkUrl url tag = .ok () ∧ out' = out ++ urlBytes url := by
  rw [encodeUrl, Except.check_bind_eq_ok_iff]
  refine and_congr_right fun hcheck ↦ ?_
  have hlen := length_le_of_checkUrl hcheck
  rw [maxUrlLen] at hlen
  have hfits : UInt16.tryFrom (utf8 url).length = some (UInt16.ofNat (utf8 url).length) := by
    rw [UInt16.tryFrom, if_pos (by omega)]
  rw [hfits, Except.okOr_some, Except.ok_bind, Except.ok.injEq, urlBytes, List.append_assoc, eq_comm]

/-- The loop of the writer over the addresses, from any point on. -/
theorem foldlM_encodeUrl_eq_ok_iff {tag : UInt16} {urls : List String} {out out' : List UInt8} :
    urls.foldlM (encodeUrl tag) out = .ok out' ↔
      (∀ url ∈ urls, checkUrl url tag = .ok ()) ∧ out' = out ++ urls.flatMap urlBytes := by
  induction urls generalizing out with
  | nil =>
    rw [Except.foldlM_nil, Except.ok.injEq, List.flatMap_nil, List.append_nil, eq_comm]
    exact ⟨fun h ↦ ⟨nofun, h⟩, fun h ↦ h.2⟩
  | cons url urls ih =>
    rw [List.foldlM_cons, Except.bind_eq_ok_iff, List.forall_mem_cons, List.flatMap_cons]
    constructor
    · rintro ⟨out₁, hurl, h⟩
      obtain ⟨hcheck, rfl⟩ := encodeUrl_eq_ok_iff.mp hurl
      obtain ⟨hall, rfl⟩ := ih.mp h
      exact ⟨⟨hcheck, hall⟩, List.append_assoc _ _ _⟩
    · rintro ⟨⟨hcheck, hall⟩, rfl⟩
      refine ⟨_, encodeUrl_eq_ok_iff.mpr ⟨hcheck, rfl⟩, ih.mpr ⟨hall, ?_⟩⟩
      rw [List.append_assoc]

/-- **Which addresses are written.** One to eight proper ones. -/
theorem encodeUrls_eq_ok_iff {urls : List String} {tag : UInt16} {bytes : List UInt8} :
    encodeUrls urls tag = .ok bytes ↔
      (urls ≠ [] ∧ urls.length ≤ maxUrls ∧ ∀ url ∈ urls, checkUrl url tag = .ok ()) ∧
        bytes = urls.flatMap urlBytes := by
  rw [encodeUrls, Except.check_bind_eq_ok_iff, Except.refuseIf_eq_ok_iff, not_or, not_lt,
    foldlM_encodeUrl_eq_ok_iff, List.nil_append]
  exact ⟨fun ⟨⟨hne, hlen⟩, hall, hbytes⟩ ↦ ⟨⟨hne, hlen, hall⟩, hbytes⟩,
    fun ⟨⟨hne, hlen, hall⟩, hbytes⟩ ↦ ⟨⟨hne, hlen⟩, hall, hbytes⟩⟩

/-- **An address is read exactly as it is written**, with its length in front of it. -/
theorem decodeUrl_eq_ok_iff {tag : UInt16} {bytes tail : List UInt8} {url : String} :
    decodeUrl tag bytes = .ok (url, tail) ↔
      checkUrl url tag = .ok () ∧ bytes = urlBytes url ++ tail := by
  simp only [decodeUrl, Except.bind_eq_ok_iff, Except.okOr_eq_ok_iff]
  constructor
  · rintro ⟨⟨lenBytes, rest⟩, hsplit, len, hlen, ⟨urlPart, tail'⟩, hurl, url', htext, ⟨⟩, hcheck, heq⟩
    obtain ⟨rfl, rfl⟩ := Prod.mk.inj (Except.ok.inj heq)
    obtain ⟨-, rfl⟩ := splitAtChecked_eq_some_iff.mp hsplit
    obtain ⟨hcount, rfl⟩ := splitAtChecked_eq_some_iff.mp hurl
    obtain rfl := fromUtf8?_eq_some_iff.mp htext
    obtain rfl := ofLeBytes?_eq_some_iff.mp hlen
    refine ⟨hcheck, ?_⟩
    rw [urlBytes, hcount, UInt16.ofNat_toNat, List.append_assoc]
  · rintro ⟨hcheck, rfl⟩
    have hlen := length_le_of_checkUrl hcheck
    rw [maxUrlLen] at hlen
    have hnat : (UInt16.ofNat (utf8 url).length).toNat = (utf8 url).length :=
      UInt16.toNat_ofNat_of_lt' (by rw [UInt16.size]; omega)
    refine ⟨_, splitAtChecked_eq_some_iff.mpr ⟨?_, List.append_assoc _ _ _⟩, _,
      ofLeBytes?_toLeBytes _, (utf8 url, tail), splitAtChecked_eq_some_iff.mpr ⟨hnat.symm, rfl⟩, url,
      fromUtf8?_eq_some_iff.mpr rfl, (), hcheck, rfl⟩
    rw [length_toLeBytes, LeInt.width_uint16]

/-- No address is written as nothing. -/
theorem flatMap_urlBytes_eq_nil_iff {urls : List String} : urls.flatMap urlBytes = [] ↔ urls = [] := by
  rw [List.flatMap_eq_nil_iff, List.eq_nil_iff_forall_not_mem]
  refine forall_congr' fun url ↦ imp_congr_right fun _ ↦ iff_false_intro fun h ↦ ?_
  have hlen := congrArg List.length h
  rw [urlBytes, List.length_append, length_toLeBytes, LeInt.width_uint16, List.length_nil] at hlen
  omega

/-- The addresses that bytes have behind others: as many as there is room for, proper and new. -/
def ReadUrls (tag : UInt16) (room : ℕ) (bytes : List UInt8) (seen urls : List String) : Prop :=
  ∃ more, urls = seen ++ more ∧ more.length ≤ room ∧ (∀ url ∈ more, checkUrl url tag = .ok ()) ∧
    more.Nodup ∧ (∀ url ∈ more, url ∉ seen) ∧ bytes = more.flatMap urlBytes

/-- At the end of the bytes the loop of the reader has all addresses. -/
theorem decodeUrlsFrom_nil_eq_ok_iff {tag : UInt16} {room : ℕ} {seen urls : List String} :
    decodeUrlsFrom tag room [] seen = .ok urls ↔ ReadUrls tag room [] seen urls := by
  have hnil : decodeUrlsFrom tag room [] seen = .ok seen := by cases room <;> rfl
  rw [hnil, Except.ok.injEq]
  constructor
  · rintro rfl
    exact ⟨[], (List.append_nil _).symm, Nat.zero_le _, nofun, List.nodup_nil, nofun, rfl⟩
  · rintro ⟨more, rfl, -, -, -, -, hbytes⟩
    rw [flatMap_urlBytes_eq_nil_iff.mp hbytes.symm, List.append_nil]

/-- Addresses are read one by one, as long as there is room and they are new. -/
theorem decodeUrlsFrom_eq_ok_iff {tag : UInt16} {room : ℕ} {bytes : List UInt8}
    {seen urls : List String} :
    decodeUrlsFrom tag room bytes seen = .ok urls ↔ ReadUrls tag room bytes seen urls := by
  -- by induction on the room; the URLs seen so far grow with each step
  induction room generalizing bytes seen with
  | zero =>
    rcases bytes with - | ⟨b, rest⟩
    · exact decodeUrlsFrom_nil_eq_ok_iff
    · refine ⟨nofun, ?_⟩
      rintro ⟨more, -, hlen, -, -, -, hbytes⟩
      rw [List.length_eq_zero_iff.mp (Nat.le_zero.mp hlen)] at hbytes
      cases hbytes
  | succ room ih =>
    rcases bytes with - | ⟨b, rest⟩
    · exact decodeUrlsFrom_nil_eq_ok_iff
    · simp only [decodeUrlsFrom, Except.bind_eq_ok_iff, Except.refuseIf_eq_ok_iff]
      constructor
      · rintro ⟨⟨url, tail⟩, hurl, ⟨⟩, hnew, h⟩
        obtain ⟨hcheck, hbytes⟩ := decodeUrl_eq_ok_iff.mp hurl
        obtain ⟨more, rfl, hlen, hall, hnodup, hfresh, rfl⟩ := ih.mp h
        refine ⟨url :: more, by rw [List.append_assoc]; rfl, Nat.succ_le_succ hlen,
          List.forall_mem_cons.mpr ⟨hcheck, hall⟩, List.nodup_cons.mpr ⟨fun hmem ↦ ?_, hnodup⟩,
          List.forall_mem_cons.mpr ⟨hnew, fun u hu hseen ↦ ?_⟩, hbytes⟩
        -- a URL that comes again was seen before
        · exact hfresh url hmem (List.mem_append_right _ List.mem_cons_self)
        · exact hfresh u hu (List.mem_append_left _ hseen)
      · rintro ⟨more, rfl, hlen, hall, hnodup, hfresh, hbytes⟩
        rcases more with - | ⟨url, more⟩
        · cases hbytes
        · obtain ⟨hcheck, hall⟩ := List.forall_mem_cons.mp hall
          obtain ⟨hnew, hfresh⟩ := List.forall_mem_cons.mp hfresh
          obtain ⟨hnot, hnodup⟩ := List.nodup_cons.mp hnodup
          refine ⟨(url, _), decodeUrl_eq_ok_iff.mpr ⟨hcheck, hbytes⟩, (), hnew, ?_⟩
          refine ih.mpr ⟨more, by rw [List.append_assoc]; rfl, Nat.le_of_succ_le_succ hlen, hall, hnodup,
            fun u hu hseen ↦ ?_, rfl⟩
          rcases List.mem_append.mp hseen with hseen | hseen
          · exact hfresh u hu hseen
          · obtain rfl : u = url := List.mem_singleton.mp hseen
            exact hnot hu

/-- **Which addresses are read.** Those that are written, if none is repeated. -/
theorem decodeUrls_eq_ok_iff {bytes : List UInt8} {tag : UInt16} {urls : List String} :
    decodeUrls bytes tag = .ok urls ↔ encodeUrls urls tag = .ok bytes ∧ urls.Nodup := by
  simp only [decodeUrls, Except.bind_eq_ok_iff, Except.refuseIf_eq_ok_iff, decodeUrlsFrom_eq_ok_iff,
    encodeUrls_eq_ok_iff, ReadUrls, List.nil_append]
  constructor
  · rintro ⟨_, ⟨urls', rfl, hlen, hall, hnodup, -, rfl⟩, ⟨⟩, hne, h⟩
    obtain rfl := Except.ok.inj h
    exact ⟨⟨⟨hne, hlen, hall⟩, rfl⟩, hnodup⟩
  · rintro ⟨⟨⟨hne, hlen, hall⟩, rfl⟩, hnodup⟩
    exact ⟨urls, ⟨urls, rfl, hlen, hall, hnodup, fun _ _ ↦ List.not_mem_nil, rfl⟩, (), hne, rfl⟩

/-- The addresses of a binding have few bytes. -/
theorem length_le_of_encodeUrls {urls : List String} {tag : UInt16} {bytes : List UInt8}
    (h : encodeUrls urls tag = .ok bytes) : bytes.length ≤ 8 * 258 := by
  obtain ⟨⟨-, hlen, hall⟩, rfl⟩ := encodeUrls_eq_ok_iff.mp h
  have hbound : ∀ url ∈ urls, (urlBytes url).length ≤ 258 := by
    intro url hurl
    have := length_le_of_checkUrl (hall url hurl)
    rw [maxUrlLen] at this
    rw [urlBytes, List.length_append, length_toLeBytes, LeInt.width_uint16]
    omega
  rw [List.length_flatMap]
  calc (urls.map fun url ↦ (urlBytes url).length).sum ≤ (urls.map fun _ ↦ 258).sum :=
        List.sum_le_sum hbound
    _ = urls.length * 258 := by rw [List.map_const', List.sum_replicate_nat]
    _ ≤ 8 * 258 := Nat.mul_le_mul_right _ hlen

/-! ### Keys -/

/-- **Keys are written in increasing order**, without a number in front of them. -/
theorem encodeKeys_eq_ok_iff {keys : List Digest} {max : ℕ} {tag : UInt16} {bytes : List UInt8} :
    encodeKeys keys max tag = .ok bytes ↔
      (keys.length ≤ max ∧ keys.IsChain keyLt) ∧ bytes = keys.flatMap List.Vector.toList := by
  rw [encodeKeys, Except.check_bind_eq_ok_iff, Except.refuseIf_eq_ok_iff, not_or, not_lt, not_not,
    Except.ok.injEq, eq_comm (a := bytes)]

/-- **The same keys are read and written.** -/
theorem decodeKeys_eq_ok_iff {bytes : List UInt8} {max : ℕ} {tag : UInt16} {keys : List Digest} :
    decodeKeys bytes max tag = .ok keys ↔ encodeKeys keys max tag = .ok bytes := by
  simp only [decodeKeys, Except.bind_eq_ok_iff, Except.okOr_eq_ok_iff, Except.refuseIf_eq_ok_iff,
    not_or, not_lt, not_not, encodeKeys_eq_ok_iff, chunksExact?_eq_some_iff (n := 32) (by decide)]
  constructor
  · rintro ⟨keys', hbytes, ⟨⟩, hkeys, h⟩
    obtain rfl := Except.ok.inj h
    exact ⟨hkeys, hbytes⟩
  · rintro ⟨hkeys, hbytes⟩
    exact ⟨keys, hbytes, (), hkeys, rfl⟩

/-- Their number is bounded, and so are their bytes. -/
theorem length_le_of_encodeKeys {keys : List Digest} {max : ℕ} {tag : UInt16} {bytes : List UInt8}
    (h : encodeKeys keys max tag = .ok bytes) : bytes.length ≤ max * 32 := by
  obtain ⟨⟨hlen, -⟩, rfl⟩ := encodeKeys_eq_ok_iff.mp h
  rw [length_flatMap_toList]
  exact Nat.mul_le_mul_right _ hlen

/-- Ascending keys do not repeat. -/
theorem nodup_of_isChain_keyLt {keys : List Digest} (h : keys.IsChain keyLt) : keys.Nodup := by
  have : IsTrans Digest keyLt := ⟨fun _ _ _ hab hbc ↦ List.lt_trans hab hbc⟩
  refine h.pairwise.imp fun hlt heq ↦ ?_
  rw [heq] at hlt
  exact List.lt_irrefl _ hlt

/-! ### Fields -/

@[simp] theorem text_utf8 (tag : UInt16) (s : String) (span : Span) :
    text ⟨tag, utf8 s, span⟩ = .ok s :=
  Except.okOr_eq_ok_iff.mpr (fromUtf8?_eq_some_iff.mpr rfl)

@[simp] theorem enumField_mk {α : Type} (fromU8 : UInt8 → Option α) (tag : UInt16) (b : UInt8)
    (span : Span) : enumField fromU8 ⟨tag, [b], span⟩ = okOr (fromU8 b) (bad tag 1) := rfl

theorem length_le_of_checkTenant {tenant : String} {tag : UInt16}
    (h : checkTenant tenant tag = .ok ()) : (utf8 tenant).length ≤ maxTenant :=
  (not_not.mp (Except.refuseIf_eq_ok_iff.mp h)).2.1

theorem length_le_of_checkReason {text : String} {tag : UInt16} (h : checkReason text tag = .ok ()) :
    (utf8 text).length ≤ 2048 := by
  have hchars := not_lt.mp (Except.refuseIf_eq_ok_iff.mp (Except.check_bind_eq_ok_iff.mp h).1)
  rw [maxReasonChars] at hchars
  exact (length_utf8_le text).trans (by omega)

/-! ### Signed documents -/

/-- A signed document is its signature and its body, and not too long. -/
theorem splitSigned_eq_ok_iff {bytes body : List UInt8} {sig : Signature} :
    splitSigned bytes = .ok (sig, body) ↔
      bytes = sig.toList ++ body ∧ bytes.length ≤ maxDocumentLen := by
  simp only [splitSigned, Except.bind_eq_ok_iff, Except.refuseIf_eq_ok_iff, not_lt,
    Except.okOr_eq_ok_iff]
  constructor
  · rintro ⟨⟨⟩, hlen, ⟨first, rest⟩, hsplit, v, hv, h⟩
    obtain ⟨rfl, rfl⟩ := Prod.mk.inj (Except.ok.inj h)
    obtain ⟨-, rfl⟩ := splitAtChecked_eq_some_iff.mp hsplit
    obtain rfl := toVector?_eq_some_iff.mp hv
    exact ⟨rfl, hlen⟩
  · rintro ⟨rfl, hlen⟩
    exact ⟨(), hlen, (sig.toList, body), splitAtChecked_eq_some_iff.mpr ⟨sig.toList_length, rfl⟩, sig,
      toVector?_eq_some_iff.mpr rfl, rfl⟩

/-! ### Bindings -/

namespace Binding

/-- The tags and values of a binding, given the bytes of its lists. -/
def contents (binding : Binding) (urls pins roster : List UInt8) : Contents :=
  [(BindingTag.version, [Control.version]), (BindingTag.tenant, utf8 binding.tenant),
    (BindingTag.authorityId, binding.authorityId.toList),
    (BindingTag.epoch, toLeBytes binding.epoch), (BindingTag.revision, toLeBytes binding.revision),
    (BindingTag.leasePublic, binding.leasePublic.toList),
    (BindingTag.sealingPublic, binding.sealingPublic.toList), (BindingTag.urls, urls),
    (BindingTag.pins, pins), (BindingTag.durability, [binding.durability.toU8]),
    (BindingTag.recovery, [binding.recovery.toU8]), (BindingTag.status, [binding.status.toU8]),
    (BindingTag.roster, roster), (BindingTag.threshold, [binding.threshold]),
    (BindingTag.operationId, binding.operationId.toList),
    (BindingTag.previous, binding.previous.toList),
    (BindingTag.issuedAt, toLeBytes binding.issuedAt),
    (BindingTag.expiresAt, toLeBytes binding.expiresAt)]

/-- The body of a binding is its records, if it passes its checks. -/
theorem body_eq_ok_iff {binding : Binding} {bytes : List UInt8} :
    binding.body = .ok bytes ↔ binding.check = .ok () ∧
      ∃ urls, encodeUrls binding.urls BindingTag.urls = .ok urls ∧
        ∃ pins, encodeKeys binding.pins maxPins BindingTag.pins = .ok pins ∧
          ∃ roster, encodeKeys binding.roster maxRoster BindingTag.roster = .ok roster ∧
            Encodes bytes (binding.contents urls pins roster) := by
  simp only [body, Except.check_bind_eq_ok_iff, TlvWriter.new_put_bind, TlvWriter.putMany_put_bind,
    TlvWriter.putMany_bind_eq_ok_iff, TlvWriter.putMany_finish_eq_ok_iff, contents, List.cons_append,
    List.nil_append]

/-- The tags of a binding. -/
def tags : List UInt16 := [1, 2, 3, 4, 5, 6, 7, 8, 9, 10, 11, 12, 13, 14, 15, 16, 17, 18]

/-- The loop of the reader keeps known records and skips the others. -/
theorem canonicalStep_peekStep : CanonicalStep tags peekStep where
  reads s skipped tag value span h := by
    simp only [tags, List.mem_cons, List.not_mem_nil, or_false] at h
    rcases h with rfl | rfl | rfl | rfl | rfl | rfl | rfl | rfl | rfl | rfl | rfl | rfl | rfl | rfl |
      rfl | rfl | rfl | rfl <;> simp only [readKnown, peekStep, Except.map_map] <;> rfl
  skips s skipped tag value span h := by
    unfold peekStep
    split <;> first | rfl | simp_all [tags]

/-- Only known tags are written. -/
theorem mem_tags_of_mem_contents {binding : Binding} {urls pins roster : List UInt8} :
    ∀ p ∈ binding.contents urls pins roster, p.1 ∈ tags := by
  simp [contents, tags, BindingTag.version, BindingTag.tenant, BindingTag.authorityId,
    BindingTag.epoch, BindingTag.revision, BindingTag.leasePublic, BindingTag.sealingPublic,
    BindingTag.urls, BindingTag.pins, BindingTag.durability, BindingTag.recovery, BindingTag.status,
    BindingTag.roster, BindingTag.threshold, BindingTag.operationId, BindingTag.previous,
    BindingTag.issuedAt, BindingTag.expiresAt]

/-- The slots of a binding, all filled. -/
def Reading.of (binding : Binding) : Reading :=
  ⟨some Control.version, some binding.tenant, some binding.authorityId, some binding.epoch,
    some binding.revision, some binding.leasePublic, some binding.sealingPublic, some binding.urls,
    some binding.pins, some binding.durability, some binding.recovery, some binding.status,
    some binding.roster, some binding.threshold, some binding.operationId, some binding.previous,
    some binding.issuedAt, some binding.expiresAt⟩

/-- The written fields fill the slots, if no address is repeated. -/
theorem foldlM_contents {binding : Binding} {urls pins roster : List UInt8}
    (hurls : encodeUrls binding.urls 8 = .ok urls) (hnodup : binding.urls.Nodup)
    (hpins : encodeKeys binding.pins maxPins 9 = .ok pins)
    (hroster : encodeKeys binding.roster maxRoster 13 = .ok roster) :
    (binding.contents urls pins roster).foldlM (readKnown peekStep) {} = .ok (Reading.of binding) := by
  simp [contents, readKnown, peekStep, BindingTag.version, BindingTag.tenant, BindingTag.authorityId,
    BindingTag.epoch, BindingTag.revision, BindingTag.leasePublic, BindingTag.sealingPublic,
    BindingTag.urls, BindingTag.pins, BindingTag.durability, BindingTag.recovery, BindingTag.status,
    BindingTag.roster, BindingTag.threshold, BindingTag.operationId, BindingTag.previous,
    BindingTag.issuedAt, BindingTag.expiresAt, decodeUrls_eq_ok_iff.mpr ⟨hurls, hnodup⟩,
    decodeKeys_eq_ok_iff.mpr hpins, decodeKeys_eq_ok_iff.mpr hroster, Reading.of]

/-- A binding is built from exactly its own slots. -/
theorem Reading.binding_eq_ok_iff {acc : Reading} {binding : Binding} :
    acc.binding = .ok binding ↔ acc = Reading.of binding ∧ binding.check = .ok () := by
  constructor
  · intro h
    simp only [Reading.binding, Except.bind_eq_ok_iff, Except.refuseIf_eq_ok_iff, not_not,
      Except.okOr_eq_ok_iff] at h
    obtain ⟨⟨⟩, hversion, _, htenant, _, hid, _, hepoch, _, hrevision, _, hlease, _, hsealing, _, hurls,
      _, hpins, _, hdurability, _, hrecovery, _, hstatus, _, hroster, _, hthreshold, _, hoperation, _,
      hprevious, _, hissued, _, hexpires, ⟨⟩, hcheck, hbinding⟩ := h
    obtain rfl := Except.ok.inj hbinding
    refine ⟨?_, hcheck⟩
    rw [Reading.of, ← hversion, ← htenant, ← hid, ← hepoch, ← hrevision, ← hlease, ← hsealing, ← hurls,
      ← hpins, ← hdurability, ← hrecovery, ← hstatus, ← hroster, ← hthreshold, ← hoperation,
      ← hprevious, ← hissued, ← hexpires]
  · rintro ⟨rfl, hcheck⟩
    simp [Reading.of, Reading.binding, Except.refuseIf, hcheck]

/-- The addresses that were read are not repeated. -/
theorem nodup_urls_of_foldlM {l : Contents} {acc : Reading}
    (h : l.foldlM (readKnown peekStep) {} = .ok acc) : ∀ urls ∈ acc.urls, urls.Nodup := by
  have hinv := Except.foldlM_invariant (P := fun acc : Reading ↦ ∀ urls ∈ acc.urls, urls.Nodup) h
  refine hinv nofun ?_
  rintro ⟨tag, value⟩ - acc acc' hacc hread
  obtain ⟨⟨acc', skipped⟩, hstep, rfl⟩ := Except.map_eq_ok_iff.mp hread
  unfold peekStep at hstep
  split at hstep
  case h_8 =>
    obtain ⟨urls, hurls, heq⟩ := Except.map_eq_ok_iff.mp hstep
    obtain ⟨rfl, -⟩ := Prod.mk.inj heq
    rintro _ ⟨⟩
    exact (decodeUrls_eq_ok_iff.mp hurls).2
  -- no other field touches the addresses
  all_goals
    obtain ⟨_, -, heq⟩ := Except.map_eq_ok_iff.mp hstep
    obtain ⟨rfl, -⟩ := Prod.mk.inj heq
    exact hacc

/-- **What a binding is read from.** A body that carries its own, if no address is repeated. -/
theorem decodeCanonical_eq_ok_iff {body : List UInt8} {binding : Binding} :
    decodeCanonical peekStep {} Reading.binding Binding.body (bad 0) body = .ok binding ↔
      ∃ written, Carries tags body written ∧ binding.urls.Nodup ∧ binding.body = .ok written := by
  rw [canonicalStep_peekStep.decodeCanonical_eq_ok_iff]
  constructor
  · rintro ⟨written, l, acc, hcarries, -, hwrite, hfold, hbuild⟩
    obtain ⟨rfl, -⟩ := Reading.binding_eq_ok_iff.mp hbuild
    exact ⟨written, hcarries, nodup_urls_of_foldlM hfold _ rfl, hwrite⟩
  · rintro ⟨written, hcarries, hnodup, hwrite⟩
    obtain ⟨hcheck, urls, hurls, pins, hpins, roster, hroster, henc⟩ := body_eq_ok_iff.mp hwrite
    exact ⟨written, _, Reading.of binding, hcarries, henc, hwrite,
      foldlM_contents hurls hnodup hpins hroster, Reading.binding_eq_ok_iff.mpr ⟨rfl, hcheck⟩⟩

end Binding

/-! ### Payloads -/

namespace Payload

/-- The tags and values of a payload. -/
def contents : Payload → Except FormatError Contents
  | setEndpoints urls pins => do
    let urls ← encodeUrls urls 1
    let pins ← encodeKeys pins maxPins 2
    .ok [(1, urls), (2, pins)]
  | setDurability durability => .ok [(1, [durability.toU8])]
  | setRoster keys threshold => do
    let keys ← encodeKeys keys maxRoster 1
    .ok [(1, keys), (2, [threshold])]
  | setRecovery recovery => .ok [(1, [recovery.toU8])]
  | decommission status reason => do
    checkDecommission status
    checkReason reason 2
    .ok [(1, [status.toU8]), (2, utf8 reason)]
  | addAuthor key => .ok [(1, key.toList)]
  | removeAuthor key => .ok [(1, key.toList)]

/-- A payload is its two records. -/
theorem encode_eq_ok_iff {payload : Payload} {bytes : List UInt8} :
    payload.encode = .ok bytes ↔ ∃ l, payload.contents = .ok l ∧ Encodes bytes l := by
  cases payload with
  | setEndpoints urls pins =>
    rw [encode, Except.bind_eq_ok_iff]
    simp only [TlvWriter.new_put_bind, TlvWriter.putMany_bind_eq_ok_iff, TlvWriter.putMany_put_bind,
      TlvWriter.putMany_finish_eq_ok_iff, List.cons_append, List.nil_append]
    simp only [contents, Except.bind_eq_ok_iff, Except.ok.injEq]
    constructor
    · rintro ⟨urls', hurls, pins', hpins, henc⟩
      exact ⟨_, ⟨urls', hurls, pins', hpins, rfl⟩, henc⟩
    · rintro ⟨_, ⟨urls', hurls, pins', hpins, rfl⟩, henc⟩
      exact ⟨urls', hurls, pins', hpins, henc⟩
  | setRoster keys threshold =>
    rw [encode, Except.bind_eq_ok_iff]
    simp only [TlvWriter.new_put_bind, TlvWriter.putMany_put_bind, TlvWriter.putMany_finish_eq_ok_iff,
      List.cons_append, List.nil_append]
    simp only [contents, Except.bind_eq_ok_iff, Except.ok.injEq, exists_exists_and_eq_and]
  | decommission status reason =>
    simp only [encode, Except.check_bind_eq_ok_iff, TlvWriter.new_put_bind, TlvWriter.putMany_put_bind,
      TlvWriter.putMany_finish_eq_ok_iff, contents, Except.ok.injEq, List.cons_append,
      List.nil_append]
    constructor
    · rintro ⟨hstatus, hreason, henc⟩
      exact ⟨_, ⟨hstatus, hreason, rfl⟩, henc⟩
    · rintro ⟨_, ⟨hstatus, hreason, rfl⟩, henc⟩
      exact ⟨hstatus, hreason, henc⟩
  | setDurability | setRecovery | addAuthor | removeAuthor =>
    simp only [encode, TlvWriter.new_put_bind, TlvWriter.putMany_finish_eq_ok_iff, contents,
      Except.ok.injEq, exists_eq_left']

/-- The addresses of a payload are not repeated. -/
def NodupUrls : Payload → Prop
  | setEndpoints urls _ => urls.Nodup
  | _ => True

theorem canonicalStep_decodeStep : CanonicalStep [1, 2] decodeStep where
  reads s skipped tag value span h := by
    simp only [List.mem_cons, List.not_mem_nil, or_false] at h
    rcases h with rfl | rfl <;> rfl
  skips s skipped tag value span h := by
    unfold decodeStep
    split <;> first | rfl | simp_all

/-- The slots of a payload that has these fields. -/
def Reading.of (l : Contents) : Reading := ⟨l[0]?.map Prod.snd, l[1]?.map Prod.snd⟩

/-- The fields of a payload are its first one, or its first two. -/
theorem foldlM_contents {payload : Payload} {l : Contents} (h : payload.contents = .ok l) :
    (∀ p ∈ l, p.1 ∈ ([1, 2] : List UInt16)) ∧
      l.foldlM (readKnown decodeStep) {} = .ok (Reading.of l) := by
  cases payload with
  | setEndpoints urls pins =>
    simp only [contents, Except.bind_eq_ok_iff, Except.ok.injEq] at h
    obtain ⟨_, -, _, -, rfl⟩ := h
    exact ⟨by simp, rfl⟩
  | setRoster keys threshold =>
    simp only [contents, Except.bind_eq_ok_iff, Except.ok.injEq] at h
    obtain ⟨_, -, rfl⟩ := h
    exact ⟨by simp, rfl⟩
  | decommission status reason =>
    simp only [contents, Except.bind_eq_ok_iff, Except.ok.injEq] at h
    obtain ⟨_, -, _, -, rfl⟩ := h
    exact ⟨by simp, rfl⟩
  | setDurability | setRecovery | addAuthor | removeAuthor =>
    obtain rfl := Except.ok.inj h
    exact ⟨by simp, rfl⟩

/-- A payload is built from its own fields, if no address is repeated. -/
theorem payload_of {payload : Payload} {l : Contents} (h : payload.contents = .ok l)
    (hnodup : payload.NodupUrls) : (Reading.of l).payload payload.kind = .ok payload := by
  cases payload with
  | setEndpoints urls pins =>
    simp only [contents, Except.bind_eq_ok_iff, Except.ok.injEq] at h
    obtain ⟨urls', hurls, pins', hpins, rfl⟩ := h
    simp [Reading.of, Reading.payload, kind, decodeUrls_eq_ok_iff.mpr ⟨hurls, hnodup⟩,
      decodeKeys_eq_ok_iff.mpr hpins]
  | setRoster keys threshold =>
    simp only [contents, Except.bind_eq_ok_iff, Except.ok.injEq] at h
    obtain ⟨keys', hkeys, rfl⟩ := h
    simp [Reading.of, Reading.payload, kind, decodeKeys_eq_ok_iff.mpr hkeys, valueField]
  | decommission status reason =>
    simp only [contents, Except.check_bind_eq_ok_iff, Except.ok.injEq] at h
    obtain ⟨hstatus, hreason, rfl⟩ := h
    simp [Reading.of, Reading.payload, kind, valueField, hstatus, hreason]
  | setDurability | setRecovery | addAuthor | removeAuthor =>
    obtain rfl := Except.ok.inj h
    simp [Reading.of, Reading.payload, kind, valueField]

/-- A payload that was built is of the kind, and no address is repeated. -/
theorem kind_of_payload {kind : UInt8} {acc : Reading} {payload : Payload}
    (h : acc.payload kind = .ok payload) : payload.kind = kind ∧ payload.NodupUrls := by
  obtain ⟨one, -, h⟩ := Except.bind_eq_ok_iff.mp h
  split at h
  · simp only [Except.bind_eq_ok_iff, decodeUrls_eq_ok_iff, Except.ok.injEq] at h
    obtain ⟨urls, ⟨-, hnodup⟩, _, -, rfl⟩ := h
    exact ⟨rfl, hnodup⟩
  · obtain ⟨_, -, rfl⟩ := Except.map_eq_ok_iff.mp h
    exact ⟨rfl, trivial⟩
  · simp only [Except.bind_eq_ok_iff, Except.ok.injEq] at h
    obtain ⟨_, -, _, -, rfl⟩ := h
    exact ⟨rfl, trivial⟩
  · obtain ⟨_, -, rfl⟩ := Except.map_eq_ok_iff.mp h
    exact ⟨rfl, trivial⟩
  · simp only [Except.bind_eq_ok_iff, Except.ok.injEq] at h
    obtain ⟨_, -, _, -, _, -, _, -, rfl⟩ := h
    exact ⟨rfl, trivial⟩
  · obtain ⟨_, -, rfl⟩ := Except.map_eq_ok_iff.mp h
    exact ⟨rfl, trivial⟩
  · obtain ⟨_, -, rfl⟩ := Except.map_eq_ok_iff.mp h
    exact ⟨rfl, trivial⟩
  · split_ifs at h

/-- **What a payload is read from.** A body that carries its own, if no address is repeated. -/
theorem decode_eq_ok_iff {kind : UInt8} {body : List UInt8} {payload : Payload} :
    decode kind body = .ok payload ↔
      ∃ written, Carries [1, 2] body written ∧ payload.NodupUrls ∧ payload.kind = kind ∧
        payload.encode = .ok written := by
  rw [decode, canonicalStep_decodeStep.decodeCanonical_eq_ok_iff]
  constructor
  · rintro ⟨written, l, acc, hcarries, -, hwrite, -, hbuild⟩
    obtain ⟨hkind, hnodup⟩ := kind_of_payload hbuild
    exact ⟨written, hcarries, hnodup, hkind, hwrite⟩
  · rintro ⟨written, hcarries, hnodup, rfl, hwrite⟩
    obtain ⟨l, hl, henc⟩ := encode_eq_ok_iff.mp hwrite
    exact ⟨written, l, Reading.of l, hcarries, henc, hwrite, (foldlM_contents hl).2,
      payload_of hl hnodup⟩

/-- A payload is read back from what was written, if no address is repeated. -/
theorem decode_encode {payload : Payload} {body : List UInt8} (h : payload.encode = .ok body)
    (hnodup : payload.NodupUrls) : decode payload.kind body = .ok payload := by
  obtain ⟨l, hl, henc⟩ := encode_eq_ok_iff.mp h
  exact decode_eq_ok_iff.mpr ⟨body, .refl henc (foldlM_contents hl).1, hnodup, rfl, h⟩

end Payload

/-! ### Requests -/

namespace ControlRequest

/-- The tags and values of a request, given the bytes of its payload. -/
def contents (request : ControlRequest) (payload : List UInt8) : Contents :=
  [(RequestTag.version, [Control.version]), (RequestTag.tenant, utf8 request.tenant),
    (RequestTag.authorityId, request.authorityId.toList), (RequestTag.epoch, toLeBytes request.epoch),
    (RequestTag.operationId, request.operationId.toList), (RequestTag.scope, [scopeAuthority]),
    (RequestTag.expectedRevision, toLeBytes request.expectedRevision),
    (RequestTag.issuedAt, toLeBytes request.issuedAt),
    (RequestTag.expiresAt, toLeBytes request.expiresAt),
    (RequestTag.payloadKind, [request.payload.kind]), (RequestTag.payload, payload)]

/-- The body of a request is its records, if it is not valid for too long. -/
theorem body_eq_ok_iff {request : ControlRequest} {bytes : List UInt8} :
    request.body = .ok bytes ↔ checkTenant request.tenant RequestTag.tenant = .ok () ∧
      ∃ lifetime, request.expiresAt.checkedSub request.issuedAt = some lifetime ∧
        ¬(lifetime ≤ 0 ∨ maxRequestLifetime < lifetime) ∧
        ∃ payload, request.payload.encode = .ok payload ∧ Encodes bytes (request.contents payload) := by
  rw [body, Except.check_bind_eq_ok_iff, Except.bind_eq_ok_iff]
  simp only [Except.okOr_eq_ok_iff, Except.check_bind_eq_ok_iff, Except.refuseIf_eq_ok_iff,
    TlvWriter.new_put_bind, TlvWriter.putMany_put_bind, TlvWriter.putMany_bind_eq_ok_iff,
    TlvWriter.putMany_finish_eq_ok_iff, contents, List.cons_append, List.nil_append]

/-- The tags of a request. -/
def tags : List UInt16 := [1, 2, 3, 4, 5, 6, 7, 8, 9, 10, 11]

theorem canonicalStep_decodeStep : CanonicalStep tags decodeStep where
  reads s skipped tag value span h := by
    simp only [tags, List.mem_cons, List.not_mem_nil, or_false] at h
    rcases h with rfl | rfl | rfl | rfl | rfl | rfl | rfl | rfl | rfl | rfl | rfl <;>
      simp only [readKnown, decodeStep, Except.map_map] <;> rfl
  skips s skipped tag value span h := by
    unfold decodeStep
    split <;> first | rfl | simp_all [tags]

theorem mem_tags_of_mem_contents {request : ControlRequest} {payload : List UInt8} :
    ∀ p ∈ request.contents payload, p.1 ∈ tags := by
  simp [contents, tags, RequestTag.version, RequestTag.tenant, RequestTag.authorityId,
    RequestTag.epoch, RequestTag.operationId, RequestTag.scope, RequestTag.expectedRevision,
    RequestTag.issuedAt, RequestTag.expiresAt, RequestTag.payloadKind, RequestTag.payload]

/-- The slots of a request, all filled, given the bytes of its payload. -/
def Reading.of (request : ControlRequest) (payload : List UInt8) : Reading :=
  ⟨some Control.version, some request.tenant, some request.authorityId, some request.epoch,
    some request.operationId, some scopeAuthority, some request.expectedRevision,
    some request.issuedAt, some request.expiresAt, some request.payload.kind, some payload⟩

/-- The loop reads every record of a request into its place. -/
theorem foldlM_contents (request : ControlRequest) (payload : List UInt8) :
    (request.contents payload).foldlM (readKnown decodeStep) {} = .ok (Reading.of request payload) := by
  simp [contents, readKnown, decodeStep, RequestTag.version, RequestTag.tenant,
    RequestTag.authorityId, RequestTag.epoch, RequestTag.operationId, RequestTag.scope,
    RequestTag.expectedRevision, RequestTag.issuedAt, RequestTag.expiresAt, RequestTag.payloadKind,
    RequestTag.payload, Reading.of]

/-- A request is built from its own slots, if its payload is read. -/
theorem Reading.request_of {request : ControlRequest} {payload : List UInt8}
    (h : Payload.decode request.payload.kind payload = .ok request.payload) :
    (Reading.of request payload).request = .ok request := by
  simp [Reading.of, Reading.request, Except.refuseIf, h]

/-- **What a request is read from.** A body that carries its own, if no address is repeated. -/
theorem decodeBody_eq_ok_iff {body : List UInt8} {request : ControlRequest} :
    decodeBody body = .ok request ↔
      ∃ written, Carries tags body written ∧ request.payload.NodupUrls ∧
        request.body = .ok written := by
  rw [decodeBody, canonicalStep_decodeStep.decodeCanonical_eq_ok_iff]
  constructor
  · rintro ⟨written, l, acc, hcarries, -, hwrite, -, hbuild⟩
    simp only [Reading.request, Except.bind_eq_ok_iff] at hbuild
    obtain ⟨_, -, _, -, kind, -, _, -, _, -, _, -, _, -, _, -, _, -, _, -, _, -, payload, hpayload,
      hrequest⟩ := hbuild
    obtain rfl := Except.ok.inj hrequest
    obtain ⟨-, -, hnodup, -⟩ := Payload.decode_eq_ok_iff.mp hpayload
    exact ⟨written, hcarries, hnodup, hwrite⟩
  · rintro ⟨written, hcarries, hnodup, hwrite⟩
    obtain ⟨-, -, -, -, payload, hpayload, henc⟩ := body_eq_ok_iff.mp hwrite
    exact ⟨written, _, Reading.of request payload, hcarries, henc, hwrite,
      foldlM_contents request payload, Reading.request_of (Payload.decode_encode hpayload hnodup)⟩

end ControlRequest

/-! ### Receipts -/

namespace Receipt

/-- The tags and values of a receipt. -/
def contents (receipt : Receipt) : Contents :=
  [(ReceiptTag.version, [Control.version]), (ReceiptTag.requestHash, receipt.requestHash.toList),
    (ReceiptTag.operationId, receipt.operationId.toList),
    (ReceiptTag.outcome, [receipt.outcome.toU8]), (ReceiptTag.revision, toLeBytes receipt.revision),
    (ReceiptTag.commit, receipt.commit.toList), (ReceiptTag.epoch, toLeBytes receipt.epoch),
    (ReceiptTag.durability, [receipt.durability.toU8]), (ReceiptTag.reason, utf8 receipt.reason),
    (ReceiptTag.at_, toLeBytes receipt.at_)]

/-- The body of a receipt is its records, if its reason passes the check. -/
theorem body_eq_ok_iff {receipt : Receipt} {bytes : List UInt8} :
    receipt.body = .ok bytes ↔ checkReason receipt.reason ReceiptTag.reason = .ok () ∧
      Encodes bytes receipt.contents := by
  simp only [body, Except.check_bind_eq_ok_iff, TlvWriter.new_put_bind, TlvWriter.putMany_put_bind,
    TlvWriter.putMany_finish_eq_ok_iff, contents, List.cons_append, List.nil_append]

/-- The tags of a receipt. -/
def tags : List UInt16 := [1, 2, 3, 4, 5, 6, 7, 8, 9, 10]

theorem canonicalStep_openStep : CanonicalStep tags openStep where
  reads s skipped tag value span h := by
    simp only [tags, List.mem_cons, List.not_mem_nil, or_false] at h
    rcases h with rfl | rfl | rfl | rfl | rfl | rfl | rfl | rfl | rfl | rfl <;>
      simp only [readKnown, openStep, Except.map_map] <;> rfl
  skips s skipped tag value span h := by
    unfold openStep
    split <;> first | rfl | simp_all [tags]

theorem mem_tags_of_mem_contents {receipt : Receipt} : ∀ p ∈ receipt.contents, p.1 ∈ tags := by
  simp [contents, tags, ReceiptTag.version, ReceiptTag.requestHash, ReceiptTag.operationId,
    ReceiptTag.outcome, ReceiptTag.revision, ReceiptTag.commit, ReceiptTag.epoch,
    ReceiptTag.durability, ReceiptTag.reason, ReceiptTag.at_]

/-- The slots of a receipt, all filled. -/
def Reading.of (receipt : Receipt) : Reading :=
  ⟨some Control.version, some receipt.requestHash, some receipt.operationId, some receipt.outcome,
    some receipt.revision, some receipt.commit, some receipt.epoch, some receipt.durability,
    some receipt.reason, some receipt.at_⟩

/-- The loop reads every record of a receipt into its place. -/
theorem foldlM_contents (receipt : Receipt) :
    receipt.contents.foldlM (readKnown openStep) {} = .ok (Reading.of receipt) := by
  simp [contents, readKnown, openStep, ReceiptTag.version, ReceiptTag.requestHash,
    ReceiptTag.operationId, ReceiptTag.outcome, ReceiptTag.revision, ReceiptTag.commit,
    ReceiptTag.epoch, ReceiptTag.durability, ReceiptTag.reason, ReceiptTag.at_, Reading.of]

/-- **What a receipt is read from.** A body that carries its own. -/
theorem decodeBody_eq_ok_iff {body : List UInt8} {receipt : Receipt} :
    decodeBody body = .ok receipt ↔
      ∃ written, Carries tags body written ∧ receipt.body = .ok written := by
  rw [decodeBody, canonicalStep_openStep.decodeCanonical_eq_ok_iff]
  constructor
  · rintro ⟨written, l, acc, hcarries, -, hwrite, -⟩
    exact ⟨written, hcarries, hwrite⟩
  · rintro ⟨written, hcarries, hwrite⟩
    refine ⟨written, _, Reading.of receipt, hcarries, (body_eq_ok_iff.mp hwrite).2, hwrite,
      foldlM_contents receipt, ?_⟩
    simp [Reading.of, Reading.receipt, Except.refuseIf]

end Receipt

/-! ### Transfers -/

namespace Transfer

/-- The tags and values of a transfer. -/
def contents (transfer : Transfer) : Contents :=
  [(TransferTag.version, [Control.version]), (TransferTag.authorityId, transfer.authorityId.toList),
    (TransferTag.fromEpoch, toLeBytes transfer.fromEpoch),
    (TransferTag.toEpoch, toLeBytes transfer.toEpoch),
    (TransferTag.fromLease, transfer.fromLease.toList),
    (TransferTag.transitionAt, toLeBytes transfer.transitionAt),
    (TransferTag.oldLeases, [transfer.oldLeases.toU8]),
    (TransferTag.issuedAt, toLeBytes transfer.issuedAt),
    (TransferTag.expiresAt, toLeBytes transfer.expiresAt), (TransferTag.binding, transfer.binding)]

/-- The body of a transfer is its records, if it passes its checks. -/
theorem body_eq_ok_iff {transfer : Transfer} {bytes : List UInt8} :
    transfer.body = .ok bytes ↔ transfer.check = .ok () ∧ Encodes bytes transfer.contents := by
  simp only [body, Except.check_bind_eq_ok_iff, TlvWriter.new_put_bind, TlvWriter.putMany_put_bind,
    TlvWriter.putMany_finish_eq_ok_iff, contents, List.cons_append, List.nil_append]

/-- The tags of a transfer. -/
def tags : List UInt16 := [1, 2, 3, 4, 5, 6, 7, 8, 9, 10]

theorem canonicalStep_decodeStep : CanonicalStep tags decodeStep where
  reads s skipped tag value span h := by
    simp only [tags, List.mem_cons, List.not_mem_nil, or_false] at h
    rcases h with rfl | rfl | rfl | rfl | rfl | rfl | rfl | rfl | rfl | rfl <;>
      simp only [readKnown, decodeStep, Except.map_map] <;> rfl
  skips s skipped tag value span h := by
    unfold decodeStep
    split <;> first | rfl | simp_all [tags]

theorem mem_tags_of_mem_contents {transfer : Transfer} : ∀ p ∈ transfer.contents, p.1 ∈ tags := by
  simp [contents, tags, TransferTag.version, TransferTag.authorityId, TransferTag.fromEpoch,
    TransferTag.toEpoch, TransferTag.fromLease, TransferTag.transitionAt, TransferTag.oldLeases,
    TransferTag.issuedAt, TransferTag.expiresAt, TransferTag.binding]

/-- The slots of a transfer, all filled. -/
def Reading.of (transfer : Transfer) : Reading :=
  ⟨some Control.version, some transfer.authorityId, some transfer.fromEpoch, some transfer.toEpoch,
    some transfer.fromLease, some transfer.transitionAt, some transfer.oldLeases,
    some transfer.issuedAt, some transfer.expiresAt, some transfer.binding⟩

/-- The loop reads every record of a transfer into its place. -/
theorem foldlM_contents (transfer : Transfer) :
    transfer.contents.foldlM (readKnown decodeStep) {} = .ok (Reading.of transfer) := by
  simp [contents, readKnown, decodeStep, TransferTag.version, TransferTag.authorityId,
    TransferTag.fromEpoch, TransferTag.toEpoch, TransferTag.fromLease, TransferTag.transitionAt,
    TransferTag.oldLeases, TransferTag.issuedAt, TransferTag.expiresAt, TransferTag.binding,
    Reading.of]

/-- **What a transfer is read from.** A body that carries its own. -/
theorem decodeBody_eq_ok_iff {body : List UInt8} {transfer : Transfer} :
    decodeBody body = .ok transfer ↔
      ∃ written, Carries tags body written ∧ transfer.body = .ok written := by
  rw [decodeBody, canonicalStep_decodeStep.decodeCanonical_eq_ok_iff]
  constructor
  · rintro ⟨written, l, acc, hcarries, -, hwrite, -⟩
    exact ⟨written, hcarries, hwrite⟩
  · rintro ⟨written, hcarries, hwrite⟩
    refine ⟨written, _, Reading.of transfer, hcarries, (body_eq_ok_iff.mp hwrite).2, hwrite,
      foldlM_contents transfer, ?_⟩
    simp [Reading.of, Reading.transfer, Except.refuseIf]

end Transfer

end Control

end OpenCrate.Protocol
