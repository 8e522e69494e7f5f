import OpenCrate.Crypto.SessionKeys
import OpenCrate.Protocol.EnvelopeRoundTrip
import OpenCrate.Protocol.Transcripts

/-!
# Conversations

A device that greets the server is challenged with a secret, sealed to the keys that it named. It proves that it has
opened the secret by an echo over both raw frames, and then authenticates the requests that change what it is given
(`isSessionSealed`) by a code under a key of the secret. The two sides compute the same values from what they have
seen, so there is one definition for both (`Conversation`), and the two ways in which a code is used: the device puts
it behind a message (`send`), and the server takes it off and compares it before anything is parsed (`receive`).

Whoever stands between the two may keep frames back, repeat them and carry them from one conversation to another, but
has only those echoes and codes that the device has made. Then both sides have seen the same greeting and challenge,
and every authenticated request that the server takes was sent by the device, byte for byte, in a conversation with
the same secret (`taken_requests_were_sent`). The secret is all that tells conversations apart: a code is not bound to
the frames, as the echo is.
-/

namespace OpenCrate.Protocol.Activation

open OpenCrate.Format OpenCrate.Crypto
open Except (refuseIf okOr)

/-! ### Codes of requests -/

/-- Protocol trailing-MAC length. -/
def requestMacLen : ℕ := 32

/-- Whether this request kind is authenticated by the session MAC. -/
def isSessionSealed (kind : UInt8) : Bool :=
  [Kind.activate, Kind.renew, Kind.attestOpen, Kind.attestEvidence, Kind.attestSecret].contains kind

/-- Separate the MAC before parsing fields. -/
def splitRequestMac (framed : List UInt8) : Except FormatError (List UInt8 × Digest) := do
  refuseIf (framed.length ≤ requestMacLen) (.truncated 33 framed.length)
  let len := framed.length - requestMacLen
  let mac ← okOr (toVector? 32 (framed.drop len)) (.truncated 33 framed.length)
  .ok (framed.take len, mac)

/-- The code of a request is its last bytes, with something in front of them. -/
theorem splitRequestMac_eq_ok_iff {framed body : List UInt8} {mac : Digest} :
    splitRequestMac framed = .ok (body, mac) ↔ body ≠ [] ∧ framed = body ++ mac.toList := by
  rw [splitRequestMac, Except.check_bind_eq_ok_iff, Except.refuseIf_eq_ok_iff, not_le]
  simp only [Except.bind_eq_ok_iff, Except.okOr_eq_ok_iff, toVector?_eq_some_iff, Except.ok.injEq, Prod.mk.injEq,
    requestMacLen]
  constructor
  · intro h
    obtain ⟨hlen, mac', hmac, rfl, rfl⟩ := h
    refine ⟨?_, ?_⟩
    · rw [ne_eq, ← List.length_eq_zero_iff, List.length_take]
      omega
    · rw [← hmac, List.take_append_drop]
  · intro h
    obtain ⟨hne, rfl⟩ := h
    have hpos := List.length_pos_of_ne_nil hne
    have hlen : (body ++ mac.toList).length - 32 = body.length := by
      rw [List.length_append, mac.toList_length, Nat.add_sub_cancel]
    refine ⟨?_, mac, ?_, ?_, rfl⟩
    · rw [List.length_append, mac.toList_length]
      omega
    · rw [hlen, List.drop_left]
    · rw [hlen, List.take_left]

/-! ### Two sides of a conversation -/

/-- A conversation as one of its sides has seen it: the raw frames, and the secret of the challenge. On the wire a
frame has a length of four bytes. -/
structure Conversation where
  hello : List UInt8
  challenge : List UInt8
  deviceFpr : Digest
  secret : List UInt8
  hello_lt : hello.length < 2 ^ 32
  challenge_lt : challenge.length < 2 ^ 32

/-- Why the server does not take a message. -/
inductive ReceiveError where
  | format (e : FormatError)
  | authentication
  deriving DecidableEq

namespace Conversation

variable (sha : Sha2) (c d : Conversation)

/-- Both frames, as they are hashed. -/
def frames : List UInt8 := (Kdf.handshakeFrames c.hello c.challenge).asBytes

/-- The proof that the secret was opened. -/
def echo : Digest := Kdf.echoTranscript sha c.secret c.deviceFpr (Kdf.handshakeTranscript sha c.hello c.challenge)

/-- The key of the requests. -/
def macKey : SessionMacKey := Kdf.deriveSessionMacKey sha c.secret c.deviceFpr

/-- The code of a request. -/
def code (framed : List UInt8) : Digest := Kdf.requestMac sha (c.macKey sha) framed

/-- A message of a kind that is authenticated. -/
def isSealed (message : List UInt8) : Bool := message.head?.any isSessionSealed

/-- The device: a request, with its code where it has one. -/
def send (request : Request) : Except FormatError (List UInt8) := do
  let framed ← encodeRequest request
  .ok (if isSealed framed then framed ++ (c.code sha framed).toList else framed)

/-- The server: the code is compared before anything is parsed. -/
def receive (message : List UInt8) : Except ReceiveError Request :=
  if isSealed message then do
    let (framed, mac) ← (splitRequestMac message).mapError .format
    refuseIf (Crypto.digestEq (c.code sha framed) mac = false) .authentication
    (decodeRequest framed).mapError .format
  else (decodeRequest message).mapError .format

variable {sha c d}

/-- Whether a message is sealed is seen from its first byte. -/
theorem isSealed_append {framed : List UInt8} (hne : framed ≠ []) (rest : List UInt8) :
    isSealed (framed ++ rest) = isSealed framed := by
  obtain ⟨kind, body, rfl⟩ := List.exists_cons_of_ne_nil hne
  rfl

/-- **What the server takes**: a message with its code, if the kind has one, whose frame it can read. -/
theorem receive_eq_ok_iff {message : List UInt8} {request : Request} :
    c.receive sha message = .ok request ↔
      ∃ framed, decodeRequest framed = .ok request ∧ framed ≠ [] ∧
        message = if isSealed framed then framed ++ (c.code sha framed).toList else framed := by
  have hnil : decodeRequest [] ≠ .ok request := by
    intro h
    obtain ⟨-, h, -⟩ := Except.bind_eq_ok_iff.mp h
    exact Except.error_ne_ok h
  rw [receive]
  -- the kind decides whether a code is expected, on both sides alike
  split_ifs with hsealed
  · simp only [Except.bind_eq_ok_iff, Except.mapError_eq_ok_iff, Prod.exists, splitRequestMac_eq_ok_iff,
      Except.refuseIf_eq_ok_iff, Bool.not_eq_false, Crypto.digestEq_eq_true_iff]
    constructor
    · intro h
      obtain ⟨framed, mac, ⟨hne, rfl⟩, -, rfl, hdecode⟩ := h
      rw [isSealed_append hne] at hsealed
      exact ⟨framed, hdecode, hne, by rw [if_pos hsealed]⟩
    · intro h
      obtain ⟨framed, hdecode, hne, rfl⟩ := h
      by_cases hframed : isSealed framed
      · rw [if_pos hframed]
        exact ⟨framed, _, ⟨hne, rfl⟩, (), rfl, hdecode⟩
      · rw [if_neg hframed] at hsealed
        exact absurd hsealed hframed
  · rw [Except.mapError_eq_ok_iff]
    constructor
    · intro hdecode
      refine ⟨message, hdecode, ?_, by rw [if_neg hsealed]⟩
      rintro rfl
      exact hnil hdecode
    · intro h
      obtain ⟨framed, hdecode, hne, rfl⟩ := h
      by_cases hframed : isSealed framed
      · rw [if_pos hframed, isSealed_append hne] at hsealed
        exact absurd hframed hsealed
      · rwa [if_neg hframed]

/-- **What is sent is taken**, as far as its document is read back. -/
theorem receive_send {request : Request} {message : List UInt8} (h : c.send sha request = .ok message) :
    c.receive sha message = .ok request ↔ request.Readable := by
  obtain ⟨framed, hencode, hmessage⟩ := Except.bind_eq_ok_iff.mp h
  obtain rfl := Except.ok.inj hmessage
  obtain ⟨kind, body, hparts, rfl⟩ := encodeRequest_eq_ok_iff.mp hencode
  have hread : decodeRequest (kind :: body) = .ok request ↔ request.Readable := decodeRequestBody_eq_ok_iff hparts
  rw [← hread, receive_eq_ok_iff]
  constructor
  · intro h
    obtain ⟨framed, hdecode, hne, hmessage⟩ := h
    obtain ⟨kind', body', rfl⟩ := List.exists_cons_of_ne_nil hne
    have hkind : kind = kind' := by
      have hhead := congrArg List.head? hmessage
      split_ifs at hhead <;> exact Option.some_inj.mp hhead
    subst hkind
    have hsame : isSealed (kind :: body) = isSealed (kind :: body') := rfl
    rw [hsame] at hmessage
    split_ifs at hmessage
    · obtain ⟨hframed, -⟩ := List.append_inj' hmessage (by simp only [List.Vector.toList_length])
      rwa [hframed]
    · rwa [hmessage]
  · intro hdecode
    exact ⟨kind :: body, hdecode, List.cons_ne_nil _ _, rfl⟩

/-! ### What an echo and a code say -/

variable (sha c d) in
/-- Two sides with one echo, of different frames or different secrets. -/
def EchoesCollide : Prop :=
  Merkle.Collides sha.sha256 [c.frames] [d.frames] ∨
    sha.CodesCollide c.secret
      (Label.echoTranscript.asBytes ++ c.deviceFpr.toList ++ (Kdf.handshakeTranscript sha c.hello c.challenge).toList)
      d.secret
      (Label.echoTranscript.asBytes ++ d.deviceFpr.toList ++ (Kdf.handshakeTranscript sha d.hello d.challenge).toList)

variable (sha c d) in
/-- Two sides with one code, of different messages or under keys of different secrets. -/
def RequestsCollide (framed framed' : List UInt8) : Prop :=
  sha.CodesCollide (c.macKey sha).expose.toList framed (d.macKey sha).expose.toList framed' ∨
    sha.KeysCollide [] c.secret (Label.sessionMac.asBytes ++ c.deviceFpr.toList) d.secret
      (Label.sessionMac.asBytes ++ d.deviceFpr.toList)

/-- The frames are told apart by what is hashed of them. -/
theorem eq_of_frames (h : c.frames = d.frames) : c.hello = d.hello ∧ c.challenge = d.challenge := by
  have hc := Statement.asBytes_transcript (s := .handshake c.hello c.challenge) ⟨c.hello_lt, c.challenge_lt⟩
  have hd := Statement.asBytes_transcript (s := .handshake d.hello d.challenge) ⟨d.hello_lt, d.challenge_lt⟩
  have hfields := List.append_cancel_left (hc.symm.trans (h.trans hd))
  obtain ⟨hhello, hrest⟩ := frame_append_inj c.hello_lt d.hello_lt (List.cons.inj hfields).2
  exact ⟨hhello, frame_inj c.challenge_lt d.challenge_lt hrest⟩

/-- **An echo names its conversation.** -/
theorem eq_of_echo (h : c.echo sha = d.echo sha) :
    (c.hello = d.hello ∧ c.challenge = d.challenge ∧ c.deviceFpr = d.deviceFpr ∧
        (c.secret.length = d.secret.length → c.secret = d.secret)) ∨ EchoesCollide sha c d := by
  rcases Sha2.eq_or_codesCollide h with ⟨hmessage, hsecret⟩ | hcol
  · rw [List.append_assoc, List.append_assoc] at hmessage
    obtain ⟨hfpr, hrest⟩ := prefixFree_vector 32 _ _ _ _ (List.append_cancel_left hmessage)
    have hhash : sha.sha256 c.frames = sha.sha256 d.frames := List.Vector.eq _ _ hrest
    rcases Merkle.eq_or_collides (List.mem_singleton_self _) (List.mem_singleton_self _) hhash with hframes | hcol
    · obtain ⟨hhello, hchallenge⟩ := eq_of_frames hframes
      exact Or.inl ⟨hhello, hchallenge, hfpr, hsecret⟩
    · exact Or.inr (Or.inl hcol)
  · exact Or.inr (Or.inr hcol)

/-- **A code names its message and its secret.** -/
theorem eq_of_code {framed framed' : List UInt8} (h : c.code sha framed = d.code sha framed') :
    (framed = framed' ∧ c.secret = d.secret ∧ c.deviceFpr = d.deviceFpr) ∨
      RequestsCollide sha c d framed framed' := by
  rcases Sha2.eq_or_codesCollide h with ⟨hframed, hkey⟩ | hcol
  · have hkey' : (c.macKey sha).expose = (d.macKey sha).expose :=
      List.Vector.eq _ _ (hkey (by rw [List.Vector.toList_length, List.Vector.toList_length]))
    rcases Sha2.eq_or_keysCollide hkey' with ⟨hsecret, hinfo⟩ | hcol
    · exact Or.inl ⟨hframed, hsecret, List.Vector.eq _ _ (List.append_cancel_left hinfo)⟩
    · exact Or.inr (Or.inr hcol)
  · exact Or.inr (Or.inl hcol)

end Conversation

/-! ### The server and the device -/

section Agreement

variable {sha : Sha2} {made : List (Conversation × List Request)} {c : Conversation} {received : List (List UInt8)}

variable (sha made) in
/-- The code is one that the device has made. -/
def MadeCode (mac : Digest) : Prop :=
  ∃ p ∈ made, ∃ request ∈ p.2, ∃ framed, encodeRequest request = .ok framed ∧ p.1.code sha framed = mac

/-- A message that the server takes, of a kind with a code that the device has made, is what the device has sent. -/
theorem sent_of_receive {message : List UInt8} {request : Request}
    (hreadable : ∀ p ∈ made, ∀ request ∈ p.2, request.Readable) (hsealed : Conversation.isSealed message)
    (hmade : ∀ framed mac, splitRequestMac message = .ok (framed, mac) → MadeCode sha made mac)
    (h : c.receive sha message = .ok request) :
    (∃ p ∈ made, request ∈ p.2 ∧ p.1.secret = c.secret ∧ p.1.deviceFpr = c.deviceFpr ∧
        p.1.send sha request = .ok message) ∨
      ∃ p ∈ made, ∃ request ∈ p.2, ∃ framed framed' mac, splitRequestMac message = .ok (framed, mac) ∧
        encodeRequest request = .ok framed' ∧ Conversation.RequestsCollide sha c p.1 framed framed' := by
  obtain ⟨framed, hdecode, hne, rfl⟩ := Conversation.receive_eq_ok_iff.mp h
  have hframed : Conversation.isSealed framed := by
    by_contra hnot
    rw [if_neg hnot] at hsealed
    exact hnot hsealed
  rw [if_pos hframed] at hmade ⊢
  have hsplit : splitRequestMac (framed ++ (c.code sha framed).toList) = .ok (framed, c.code sha framed) :=
    splitRequestMac_eq_ok_iff.mpr ⟨hne, rfl⟩
  obtain ⟨p, hp, request', hrequest', framed', hencode, hcode⟩ := hmade _ _ hsplit
  rcases Conversation.eq_of_code hcode.symm with ⟨rfl, hsecret, hfpr⟩ | hcol
  · -- the frame is the one that was sent, so what is read of it is the request that was encoded
    obtain ⟨kind, body, hparts, rfl⟩ := encodeRequest_eq_ok_iff.mp hencode
    have hread := (decodeRequestBody_eq_ok_iff hparts).mpr (hreadable p hp request' hrequest')
    obtain rfl : request' = request := Except.ok.inj (hread.symm.trans hdecode)
    refine Or.inl ⟨p, hp, hrequest', hsecret.symm, hfpr.symm, ?_⟩
    rw [Conversation.send, hencode, Except.ok_bind, if_pos hframed, hcode]
  · exact Or.inr ⟨p, hp, request', hrequest', framed, framed', _, hsplit, hencode, hcol⟩

/-- **The server takes what the device has sent.** Let somebody stand between a device and the server who has no other
echoes and codes than the device has made, in any number of conversations. Then a conversation whose echo the server
accepts is one of the device's: of the same greeting and challenge, for the same device. And every request of a kind
with a code that the server takes in it, the device has sent in a conversation with the same secret, as the same bytes.
Otherwise two inputs that the two have hashed collide. -/
theorem taken_requests_were_sent (hreadable : ∀ p ∈ made, ∀ request ∈ p.2, request.Readable)
    (hecho : ∃ p ∈ made, p.1.echo sha = c.echo sha)
    (hcodes : ∀ message ∈ received, Conversation.isSealed message →
      ∀ framed mac, splitRequestMac message = .ok (framed, mac) → MadeCode sha made mac) :
    ((∃ p ∈ made, p.1.hello = c.hello ∧ p.1.challenge = c.challenge ∧ p.1.deviceFpr = c.deviceFpr ∧
        (p.1.secret.length = c.secret.length → p.1.secret = c.secret)) ∧
      ∀ message ∈ received, Conversation.isSealed message → ∀ request, c.receive sha message = .ok request →
        ∃ p ∈ made, request ∈ p.2 ∧ p.1.secret = c.secret ∧ p.1.deviceFpr = c.deviceFpr ∧
          p.1.send sha request = .ok message) ∨
    (∃ p ∈ made, Conversation.EchoesCollide sha p.1 c) ∨
    ∃ message ∈ received, ∃ p ∈ made, ∃ request ∈ p.2, ∃ framed framed' mac,
      splitRequestMac message = .ok (framed, mac) ∧ encodeRequest request = .ok framed' ∧
      Conversation.RequestsCollide sha c p.1 framed framed' := by
  obtain ⟨p, hp, hsame⟩ := hecho
  rcases Conversation.eq_of_echo hsame with heq | hcol
  · refine or_iff_not_imp_right.mpr fun hfree ↦ ⟨⟨p, hp, heq⟩, fun message hmessage hsealed request h ↦ ?_⟩
    refine (sent_of_receive hreadable hsealed (hcodes message hmessage hsealed) h).resolve_right fun hcol ↦ ?_
    exact hfree (Or.inr ⟨message, hmessage, hcol⟩)
  · exact Or.inr (Or.inl ⟨p, hp, hcol⟩)

/-- What is hashed in the sample conversation: both frames, the echo, the key and the code of its one request. -/
def conversationSha : Sha2 where
  sha256 _ :=
    ⟨[0xab, 0x8f, 0x6f, 0x06, 0x3f, 0xac, 0x9b, 0x63, 0x0d, 0xc2, 0x47, 0x51, 0x99, 0x9e, 0x8d, 0xdb,
      0xec, 0xb3, 0xf7, 0xff, 0x11, 0xeb, 0x05, 0x1c, 0xaa, 0x22, 0x8f, 0xe9, 0x50, 0x5b, 0x1d, 0xcc],
      rfl⟩
  hmac _ message :=
    if message = [Kind.attestOpen] then
      ⟨[0x49, 0x3d, 0x46, 0x22, 0x11, 0x77, 0x47, 0x12, 0x71, 0x8b, 0xb9, 0x6f, 0x6f, 0x70, 0x88, 0x3e,
        0xfd, 0xa0, 0x25, 0x66, 0xc8, 0x53, 0x39, 0x16, 0x34, 0xc6, 0x64, 0x74, 0x90, 0x69, 0x49, 0xd4],
        rfl⟩
    else
      ⟨[0x94, 0xb1, 0x5d, 0x40, 0x8c, 0x50, 0x7c, 0xeb, 0x4d, 0xa7, 0x45, 0x43, 0xb5, 0x59, 0x00, 0x4e,
        0xcb, 0xbd, 0xac, 0xea, 0x2f, 0x11, 0xf4, 0x25, 0x84, 0xec, 0x03, 0xa0, 0xb9, 0x03, 0x18, 0x2b],
        rfl⟩
  hkdf _ _ _ n := List.Vector.ofFn fun i : Fin n ↦
    [0xe5, 0xa3, 0x2a, 0xdd, 0x0c, 0xf7, 0xbe, 0x27, 0x24, 0x1a, 0x0d, 0x8e, 0x48, 0x2c, 0xa0, 0x1a,
      0x6e, 0xe2, 0xc6, 0x82, 0x1f, 0x3d, 0x26, 0x7a, 0x64, 0x1b, 0x90, 0x8e, 0xd8, 0x6c, 0xda, 0x8f].getD i 0

/-- A greeting by fingerprint and key, a challenge to the key, and the secret that was sealed in it. -/
def sampleConversation : Conversation where
  hello := Kind.hello :: encodeContents
    [(HelloTag.deviceFpr, List.replicate 32 7), (HelloTag.devicePublic, List.replicate 32 7)]
  challenge := Kind.challenge :: encodeContents
    [(ChallengeTag.software, slotBytes ⟨[1, 2], List.Vector.replicate 24 3, [4, 5]⟩)]
  deviceFpr := List.Vector.replicate 32 7
  secret := List.replicate 32 9
  hello_lt := by decide +kernel
  challenge_lt := by decide +kernel

/-- What the sample device sends to open an attestation. -/
def sampleMessage : List UInt8 :=
  Kind.attestOpen :: (sampleConversation.code conversationSha [Kind.attestOpen]).toList

/-- The server takes the one request of the sample conversation, which the device has sent. -/
theorem taken_requests_were_sent_attestOpen :
    sampleConversation.receive conversationSha sampleMessage = .ok .attestOpen ∧
      (((∃ p ∈ [(sampleConversation, [Request.attestOpen])], p.1.hello = sampleConversation.hello) ∧
          ∃ p ∈ [(sampleConversation, [Request.attestOpen])],
            p.1.send conversationSha .attestOpen = .ok sampleMessage) ∨
        (∃ p ∈ [(sampleConversation, [Request.attestOpen])],
          Conversation.EchoesCollide conversationSha p.1 sampleConversation) ∨
        ∃ message ∈ [sampleMessage], ∃ p ∈ [(sampleConversation, [Request.attestOpen])],
          ∃ request ∈ p.2, ∃ framed framed' mac, splitRequestMac message = .ok (framed, mac) ∧
            encodeRequest request = .ok framed' ∧
            Conversation.RequestsCollide conversationSha sampleConversation p.1 framed framed') := by
  have hsplit : splitRequestMac sampleMessage =
      .ok ([Kind.attestOpen], sampleConversation.code conversationSha [Kind.attestOpen]) :=
    splitRequestMac_eq_ok_iff.mpr ⟨List.cons_ne_nil _ _, rfl⟩
  have htaken : sampleConversation.receive conversationSha sampleMessage = .ok .attestOpen :=
    Conversation.receive_eq_ok_iff.mpr ⟨[Kind.attestOpen], rfl, List.cons_ne_nil _ _, rfl⟩
  have hreadable : ∀ p ∈ [(sampleConversation, [Request.attestOpen])], ∀ request ∈ p.2, request.Readable := by
    intro p hp request hrequest
    obtain rfl := List.mem_singleton.mp hp
    obtain rfl := List.mem_singleton.mp hrequest
    trivial
  have hcodes : ∀ message ∈ [sampleMessage], Conversation.isSealed message →
      ∀ framed mac, splitRequestMac message = .ok (framed, mac) →
        MadeCode conversationSha [(sampleConversation, [Request.attestOpen])] mac := by
    intro message hmessage _ framed mac hmac
    obtain rfl := List.mem_singleton.mp hmessage
    obtain ⟨-, rfl⟩ := Prod.mk.inj (Except.ok.inj (hsplit.symm.trans hmac))
    exact ⟨_, List.mem_singleton_self _, _, List.mem_singleton_self _, _, rfl, rfl⟩
  refine ⟨htaken, (taken_requests_were_sent hreadable ⟨_, List.mem_singleton_self _, rfl⟩ hcodes).imp_left ?_⟩
  intro h
  obtain ⟨⟨p, hp, hhello, -⟩, hall⟩ := h
  obtain ⟨p', hp', -, -, -, hsend⟩ := hall sampleMessage (List.mem_singleton_self _) rfl _ htaken
  exact ⟨⟨p, hp, hhello⟩, p', hp', hsend⟩

end Agreement

end OpenCrate.Protocol.Activation
