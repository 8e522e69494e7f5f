import OpenCrate.Protocol.ControlSigned
import OpenCrate.Protocol.OrderRoundTrip
import OpenCrate.Protocol.StandingRoundTrip

/-!
# The rosters of documents

Four kinds of documents name a roster and the number of signatures it owes: orders, standings, bindings of a
server and intents of its controllers. A roster with a repeated key counts one person twice, and a threshold
above its roster can never be reached.

Orders and bindings are checked for both (`Order.Fits`, `Binding.check`). The reader of standings does not
compare the keys, and the payload of an intent is read without a look at its threshold; `installs_sound_iff`
says what these documents have to hold for their rosters to be sound.
-/

namespace OpenCrate.Protocol

open OpenCrate.Format OpenCrate.Crypto Control

/-- A document that can name a roster. -/
inductive RosterDocument where
  | order (body : List UInt8)
  | standing (bytes : List UInt8)
  | binding (bytes : List UInt8)
  | request (bytes : List UInt8)

/-- A threshold that its roster can reach. -/
def Reachable (keys : List Digest) (threshold : UInt8) : Prop :=
  keys = [] ∧ threshold = 0 ∨ 1 ≤ threshold.toNat ∧ threshold.toNat ≤ keys.length

instance (keys : List Digest) (threshold : UInt8) : Decidable (Reachable keys threshold) :=
  inferInstanceAs (Decidable (_ ∨ _))

/-- A roster in which no key counts twice, with a threshold that it can reach. -/
def SoundRoster (keys : List Digest) (threshold : UInt8) : Prop :=
  keys.Nodup ∧ Reachable keys threshold

instance (keys : List Digest) (threshold : UInt8) : Decidable (SoundRoster keys threshold) :=
  inferInstanceAs (Decidable (_ ∧ _))

namespace RosterDocument

variable {sha : Sha2} {ed : Ed25519}

/-- A document that its reader accepts. -/
def Accepted (sha : Sha2) (ed : Ed25519) : RosterDocument → Prop
  | order body => ∃ order, Order.decode body = .ok order
  | standing bytes => ∃ standing, Standing.decode bytes = .ok standing
  | binding bytes => ∃ binding, Binding.peek bytes = .ok binding
  | request bytes => ∃ opened, openRequest sha ed bytes = .ok opened

/-- The rosters that an accepted document names. -/
inductive Installs (sha : Sha2) (ed : Ed25519) : RosterDocument → List Digest → UInt8 → Prop
  | order {body order keys threshold} (h : Order.decode body = .ok order) (hkeys : order.keys = some keys)
      (hthreshold : order.threshold = some threshold) : Installs sha ed (.order body) keys threshold
  | coauthors {bytes standing} (h : Standing.decode bytes = .ok standing) :
      Installs sha ed (.standing bytes) standing.coauthors standing.coauthorThreshold
  | approvers {bytes standing} (h : Standing.decode bytes = .ok standing) :
      Installs sha ed (.standing bytes) standing.approvers standing.approverThreshold
  | binding {bytes binding} (h : Binding.peek bytes = .ok binding) :
      Installs sha ed (.binding bytes) binding.roster binding.threshold
  | request {bytes opened keys threshold} (h : openRequest sha ed bytes = .ok opened)
      (hpayload : opened.request.payload = .setRoster keys threshold) :
      Installs sha ed (.request bytes) keys threshold

/-- What the reader of the document leaves to its writer: a standing repeats no key in its rosters, and an
intent about the roster names a threshold that the roster can reach. -/
def Careful : RosterDocument → Prop
  | order _ | binding _ => True
  | standing bytes => ∀ l, Encodes bytes l → ∀ p ∈ l,
      p.1 = Standing.Tag.coauthors ∨ p.1 = Standing.Tag.approvers →
        ∀ keys, p.2 = Standing.flatten keys → keys.Nodup
  | request bytes => ∀ signatures body, splitRequest bytes = .ok (signatures, body) →
      ∀ l, Encodes body l → (RequestTag.payloadKind, [3]) ∈ l →
        ∀ payload, (RequestTag.payload, payload) ∈ l → ∀ l', Encodes payload l' →
          ∀ keys threshold, (1, Standing.flatten keys) ∈ l' → (2, [threshold]) ∈ l' →
            Reachable keys threshold

end RosterDocument

open RosterDocument

section

variable {sha : Sha2} {ed : Ed25519}

/-! ### Orders and bindings -/

/-- **The roster of an order that is read is sound.** -/
theorem sound_of_order {body : List UInt8} {order : Order} {keys : List Digest} {threshold : UInt8}
    (h : Order.decode body = .ok order) (hkeys : order.keys = some keys)
    (hthreshold : order.threshold = some threshold) : SoundRoster keys threshold := by
  have hquorum := (Order.sound_of_decode h).1.quorum keys hkeys threshold hthreshold
  exact ⟨hquorum.nodup, hquorum.reachable⟩

/-- **So is the roster of a binding.** -/
theorem sound_of_binding {bytes : List UInt8} {binding : Control.Binding} (h : Binding.peek bytes = .ok binding) :
    SoundRoster binding.roster binding.threshold := by
  obtain ⟨sig, body, written, -, -, -, hbody⟩ := Binding.peek_eq_ok_iff.mp h
  obtain ⟨hcheck, urls, -, pins, -, roster, hroster, -⟩ := Binding.body_eq_ok_iff.mp hbody
  refine ⟨nodup_of_isChain_keyLt (encodeKeys_eq_ok_iff.mp hroster).1.2, ?_⟩
  simp only [Binding.check, Except.check_bind_eq_ok_iff, Except.refuseIf_eq_ok_iff, not_not] at hcheck
  obtain ⟨-, -, hquorum, -⟩ := hcheck
  unfold quorumOk at hquorum
  split_ifs at hquorum with hnil
  · exact .inl ⟨hnil, hquorum⟩
  · exact .inr hquorum

/-! ### Standings -/

/-- The known fields of a standing are those that are written for its slots. -/
theorem Standing.mem_iff_of_decode {bytes : List UInt8} {l : Contents} {s : Standing}
    (henc : Encodes bytes l) (h : Standing.decode bytes = .ok s) {p : UInt16 × List UInt8}
    (hp : p.1 ∈ Standing.tags) : p ∈ l ↔ (Reading.of s).value p.1 = some p.2 := by
  have hcontents := ((Standing.decode_eq_ok_iff henc).mp h).2.1
  rw [← and_iff_right (b := (Reading.of s).value p.1 = some p.2) hp, ← SlotStep.mem_contents,
    ← Standing.contents, ← hcontents, List.mem_filter]
  exact (and_iff_left (decide_eq_true hp)).symm

/-- A standing is careful if and only if its rosters repeat no key. -/
theorem careful_standing_iff {bytes : List UInt8} {s : Standing} (h : Standing.decode bytes = .ok s) :
    (RosterDocument.standing bytes).Careful ↔ s.coauthors.Nodup ∧ s.approvers.Nodup := by
  obtain ⟨acc, hloop, -⟩ := Except.bind_eq_ok_iff.mp h
  obtain ⟨l, henc, -⟩ := exists_encodes_of_foldFields hloop
  -- a roster that is empty is not written
  have hfield {tag : UInt16} {roster : List Digest} (htag : tag ∈ Standing.tags)
      (hvalue : (Standing.Reading.of s).value tag =
        Standing.nonempty roster (Standing.flatten roster)) (value : List UInt8) :
      (tag, value) ∈ l ↔ roster ≠ [] ∧ Standing.flatten roster = value := by
    rw [Standing.mem_iff_of_decode henc h htag, hvalue, Standing.nonempty_eq_some_iff]
  have hcoauthors := @hfield 5 s.coauthors (by decide) rfl
  have happrovers := @hfield 7 s.approvers (by decide) rfl
  have hnodup {roster : List Digest} (h : roster ≠ [] → roster.Nodup) : roster.Nodup := by
    by_cases hnil : roster = []
    · exact hnil ▸ List.nodup_nil
    · exact h hnil
  constructor
  · intro hcareful
    have hcareful := hcareful l henc
    refine ⟨hnodup fun hne ↦ ?_, hnodup fun hne ↦ ?_⟩
    · exact hcareful _ ((hcoauthors _).mpr ⟨hne, rfl⟩) (.inl rfl) _ rfl
    · exact hcareful _ ((happrovers _).mpr ⟨hne, rfl⟩) (.inr rfl) _ rfl
  · rintro ⟨hnodup, hnodup'⟩ l' henc' ⟨tag, value⟩ hp htag keys hkeys
    obtain rfl := henc.unique henc'
    obtain rfl : value = Standing.flatten keys := hkeys
    rcases htag with htag | htag
    · obtain rfl : tag = 5 := htag
      exact Standing.flatten_injective ((hcoauthors _).mp hp).2 ▸ hnodup
    · obtain rfl : tag = 7 := htag
      exact Standing.flatten_injective ((happrovers _).mp hp).2 ▸ hnodup'

/-! ### Intents -/

/-- The keys of an intent about the roster ascend. -/
theorem nodup_of_request {bytes : List UInt8} {opened : SignedRequest} {keys : List Digest}
    {threshold : UInt8} (h : openRequest sha ed bytes = .ok opened)
    (hset : opened.request.payload = .setRoster keys threshold) : keys.Nodup := by
  obtain ⟨signatures, body, -, -, hdecode, -⟩ := openRequest_eq_ok_iff.mp h
  obtain ⟨written, -, -, hbody⟩ := ControlRequest.decodeBody_eq_ok_iff.mp hdecode
  obtain ⟨-, lifetime, -, -, payload, hpayload, -⟩ := ControlRequest.body_eq_ok_iff.mp hbody
  obtain ⟨fields, hfields, -⟩ := Payload.encode_eq_ok_iff.mp hpayload
  rw [hset] at hfields
  obtain ⟨_, hkeys, -⟩ := Except.bind_eq_ok_iff.mp hfields
  exact nodup_of_isChain_keyLt (encodeKeys_eq_ok_iff.mp hkeys).1.2

/-- The third kind of payload is a roster. -/
theorem exists_setRoster_of_kind {payload : Payload} (h : payload.kind = 3) :
    ∃ keys threshold, payload = .setRoster keys threshold := by
  cases payload with
  | setRoster keys threshold => exact ⟨keys, threshold, rfl⟩
  | _ => exact absurd h fun heq ↦ nomatch heq

/-- An intent about the roster is careful if and only if its threshold can be reached. -/
theorem careful_request_iff {bytes : List UInt8} {opened : SignedRequest}
    (h : openRequest sha ed bytes = .ok opened) :
    (RosterDocument.request bytes).Careful ↔
      ∀ keys threshold, opened.request.payload = .setRoster keys threshold → Reachable keys threshold := by
  obtain ⟨signatures, body, hsplit, -, hdecode, -⟩ := openRequest_eq_ok_iff.mp h
  obtain ⟨written, hcarries, -, hbody⟩ := ControlRequest.decodeBody_eq_ok_iff.mp hdecode
  obtain ⟨-, lifetime, -, -, payload, hpayload, hwritten⟩ := ControlRequest.body_eq_ok_iff.mp hbody
  obtain ⟨fields, hfields, hencodes⟩ := Payload.encode_eq_ok_iff.mp hpayload
  obtain ⟨l, hl⟩ : ∃ l, Encodes body l := hcarries.imp fun _ h ↦ h.1
  have hmem {p : UInt16 × List UInt8} (hp : p.1 ∈ ControlRequest.tags) :
      p ∈ l ↔ p ∈ opened.request.contents payload := hcarries.mem_iff hl hwritten hp
  have hroster {keys : List Digest} {threshold : UInt8}
      (h : opened.request.payload = .setRoster keys threshold) :
      fields = [(1, Standing.flatten keys), (2, [threshold])] := by
    rw [h] at hfields
    obtain ⟨_, hkeys, hok⟩ := Except.bind_eq_ok_iff.mp hfields
    rw [(encodeKeys_eq_ok_iff.mp hkeys).2] at hok
    exact (Except.ok.inj hok).symm
  have htag : RequestTag.payload ∈ ControlRequest.tags := by decide
  constructor
  · intro hcareful keys threshold hset
    have hkind : (RequestTag.payloadKind, [3]) ∈ l := (hmem (by decide)).mpr (by
      simp [ControlRequest.contents, hset, Payload.kind])
    have hpayload : (RequestTag.payload, payload) ∈ l := (hmem htag).mpr (by
      simp [ControlRequest.contents])
    rw [hroster hset] at hencodes
    exact hcareful signatures body hsplit l hl hkind payload hpayload _ hencodes keys threshold
      List.mem_cons_self (List.mem_cons_of_mem _ List.mem_cons_self)
  · intro hreachable signatures' body' hsplit' l' hl' hkind payload' hpayload' fields' hfields' keys
      threshold hkeys hthreshold
    obtain ⟨rfl, rfl⟩ := Prod.mk.inj (Except.ok.inj (hsplit.symm.trans hsplit'))
    obtain rfl := hl.unique hl'
    have hkind : opened.request.payload.kind = 3 := by
      have := (hmem (by decide)).mp hkind
      simpa [ControlRequest.contents, RequestTag.version, RequestTag.tenant, RequestTag.authorityId,
        RequestTag.epoch, RequestTag.operationId, RequestTag.scope, RequestTag.expectedRevision,
        RequestTag.issuedAt, RequestTag.expiresAt, RequestTag.payloadKind, RequestTag.payload,
        eq_comm] using this
    have hpayload' : payload' = payload := by
      have := (hmem htag).mp hpayload'
      simpa [ControlRequest.contents, RequestTag.version, RequestTag.tenant, RequestTag.authorityId,
        RequestTag.epoch, RequestTag.operationId, RequestTag.scope, RequestTag.expectedRevision,
        RequestTag.issuedAt, RequestTag.expiresAt, RequestTag.payloadKind, RequestTag.payload] using this
    obtain ⟨named, wanted, hset⟩ := exists_setRoster_of_kind hkind
    obtain rfl : fields' = [(1, Standing.flatten named), (2, [wanted])] := by
      rw [← hroster hset]
      exact hfields'.unique (hpayload' ▸ hencodes)
    obtain rfl : keys = named := Standing.flatten_injective (by simpa using hkeys)
    obtain rfl : threshold = wanted := by simpa using hthreshold
    exact hreachable keys threshold hset

/-- **The rosters of an accepted document are sound if and only if its writer was careful.** -/
theorem installs_sound_iff {doc : RosterDocument} (h : doc.Accepted sha ed) :
    (∀ keys threshold, Installs sha ed doc keys threshold → SoundRoster keys threshold) ↔ doc.Careful := by
  cases doc with
  | order body =>
    refine iff_of_true (fun keys threshold hinstalls ↦ ?_) trivial
    cases hinstalls with
    | order hdecode hkeys hthreshold => exact sound_of_order hdecode hkeys hthreshold
  | binding bytes =>
    refine iff_of_true (fun keys threshold hinstalls ↦ ?_) trivial
    cases hinstalls with
    | binding hpeek => exact sound_of_binding hpeek
  | standing bytes =>
    obtain ⟨s, hs⟩ := h
    have hsound := Standing.sound_of_decode hs
    rw [careful_standing_iff hs]
    constructor
    · intro hinstalls
      exact ⟨(hinstalls _ _ (.coauthors hs)).1, (hinstalls _ _ (.approvers hs)).1⟩
    · rintro ⟨hcoauthors, happrovers⟩ keys threshold hinstalls
      cases hinstalls with
      | coauthors hs' =>
        obtain rfl := Except.ok.inj (hs.symm.trans hs')
        exact ⟨hcoauthors, hsound.coauthors.2⟩
      | approvers hs' =>
        obtain rfl := Except.ok.inj (hs.symm.trans hs')
        exact ⟨happrovers, hsound.approvers.2⟩
  | request bytes =>
    obtain ⟨opened, hopened⟩ := h
    rw [careful_request_iff hopened]
    constructor
    · intro hinstalls keys threshold hset
      exact (hinstalls keys threshold (.request hopened hset)).2
    · intro hreachable keys threshold hinstalls
      cases hinstalls with
      | request hopened' hset =>
        obtain rfl := Except.ok.inj (hopened.symm.trans hopened')
        exact ⟨nodup_of_request hopened hset, hreachable keys threshold hset⟩

end

/-! ### Careless documents -/

/-- A coauthor. -/
def sampleCoauthor : Digest := List.Vector.replicate 32 9

/-- A standing that names its only coauthor twice, and asks for two signatures. -/
def repeatedStanding : Standing :=
  { Standing.unordered with coauthors := [sampleCoauthor, sampleCoauthor], coauthorThreshold := 2 }

/-- The bytes of the standing. -/
def repeatedStandingBytes : List UInt8 :=
  [1, 0, 16, 0, 0, 0] ++ List.replicate 16 7 ++ [2, 0, 1, 0, 0, 0, 0] ++
    [5, 0, 64, 0, 0, 0] ++ List.replicate 64 9 ++ [6, 0, 1, 0, 0, 0, 2]

/-- An intent that asks for five signatures of nobody. -/
def unreachableRequest : ControlRequest where
  tenant := "acme"
  authorityId := List.Vector.replicate 16 7
  epoch := 0
  operationId := List.Vector.replicate 16 1
  expectedRevision := 0
  issuedAt := 100
  expiresAt := 1000
  payload := .setRoster [] 5

/-- The controller who signs it. -/
def requestController : Digest :=
  ⟨[0xed, 0x49, 0x28, 0xc6, 0x28, 0xd1, 0xc2, 0xc6, 0xea, 0xe9, 0x03, 0x38, 0x90, 0x59, 0x95,
    0x61, 0x29, 0x59, 0x27, 0x3a, 0x5c, 0x63, 0xf9, 0x36, 0x36, 0xc1, 0x46, 0x14, 0xac, 0x87,
    0x37, 0xd1], rfl⟩

/-- The signature of the controller. -/
def requestSignature : Signature :=
  ⟨[0xd3, 0xf3, 0xfa, 0xd7, 0x6d, 0xa2, 0x7e, 0x3e, 0xd2, 0x6c, 0x55, 0x5c, 0x24, 0xa8, 0x2b,
    0xf2, 0x57, 0xb2, 0x58, 0xda, 0xfc, 0x51, 0x8b, 0xf3, 0xb5, 0xc2, 0x60, 0x50, 0xc4, 0x82,
    0x9a, 0x7e, 0xa3, 0x16, 0x41, 0xff, 0x7a, 0x23, 0xca, 0x61, 0xeb, 0x4d, 0x26, 0x06, 0x60,
    0xe3, 0x65, 0x16, 0x43, 0xb8, 0xe3, 0x06, 0x5e, 0xc0, 0xd2, 0x3d, 0x16, 0x76, 0xe4, 0xd0,
    0x6a, 0x20, 0x74, 0x02], rfl⟩

/-- The body of the intent. -/
def requestBody : List UInt8 := unreachableRequest.body.toOption.getD []

/-- The intent as it is signed. -/
def unreachableRequestBytes : List UInt8 :=
  1 :: (requestController.toList ++ requestSignature.toList ++ requestBody)

/-- The fingerprint of the body of the intent. -/
def requestHash : Digest :=
  ⟨[0x03, 0xb0, 0xb6, 0x78, 0xc1, 0x73, 0xf7, 0x7b, 0xee, 0x99, 0xd8, 0x0a, 0xdb, 0xfa, 0xa1,
    0xf2, 0xae, 0xb5, 0x3e, 0x45, 0x66, 0x4c, 0xad, 0x3b, 0x6c, 0x92, 0xa4, 0x1f, 0x50, 0xc7,
    0xfd, 0xee], rfl⟩

/-- SHA-256, as far as the intent goes. -/
def requestSha : Sha2 := ⟨fun _ ↦ requestHash, fun _ _ ↦ zeros 32, fun _ _ _ n ↦ zeros n⟩

/-- Ed25519, as far as the intent goes. -/
def requestEd25519 : Ed25519 :=
  recordedEd25519 [(requestController, (transcript .controlRequest requestBody).asBytes, requestSignature)]

/-- A standing that repeats a key is read. -/
theorem decode_repeatedStandingBytes : Standing.decode repeatedStandingBytes = .ok repeatedStanding := by
  decide +kernel

/-- The standing is accepted, and its rosters are sound if and only if it is careful. -/
theorem installs_sound_iff_repeatedStanding :
    (RosterDocument.standing repeatedStandingBytes).Accepted requestSha requestEd25519 ∧
      ((∀ keys threshold,
        Installs requestSha requestEd25519 (.standing repeatedStandingBytes) keys threshold →
          SoundRoster keys threshold) ↔ (RosterDocument.standing repeatedStandingBytes).Careful) :=
  ⟨⟨_, decode_repeatedStandingBytes⟩, installs_sound_iff ⟨_, decode_repeatedStandingBytes⟩⟩

/-- A standing that counts a coauthor twice is accepted, and so is an intent whose threshold nobody can
reach. -/
theorem careless_rosters_installed :
    (Installs requestSha requestEd25519 (.standing repeatedStandingBytes)
        [sampleCoauthor, sampleCoauthor] 2 ∧ ¬SoundRoster [sampleCoauthor, sampleCoauthor] 2) ∧
      Installs requestSha requestEd25519 (.request unreachableRequestBytes) [] 5 ∧ ¬SoundRoster [] 5 := by
  have hopened : openRequest requestSha requestEd25519 unreachableRequestBytes =
      .ok ⟨unreachableRequest, requestHash, [requestController]⟩ := by decide +kernel
  refine ⟨⟨.coauthors decode_repeatedStandingBytes, by decide⟩, .request hopened rfl, by decide⟩

end OpenCrate.Protocol
